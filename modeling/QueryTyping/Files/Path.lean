/-!
# Paths

A path is the text of a path, cut at its slashes.  It is kept as it was written: `a//b` and `a/./b`
lead to the same file but are different texts, and messages show the text.

Main statements: `text_ofText` says that nothing of the text is lost, and `size_parent_lt` that a
parent is shorter.
-/

namespace QueryTyping

/-- A path as it was written.  Without a first slash there is always a segment, maybe an empty
one. -/
structure Path where
  isAbsolute : Bool
  segments : List String
  deriving DecidableEq, Repr, Inhabited

namespace Path

/-- A character in front of the first of some texts. -/
def attach (c : Char) : List (List Char) → List (List Char)
  | [] => [[c]]
  | part :: parts => (c :: part) :: parts

/-- The texts between the slashes of a text. -/
def cut : List Char → List (List Char)
  | [] => [[]]
  | c :: cs => if c = '/' then [] :: cut cs else attach c (cut cs)

/-- Texts with a slash between any two. -/
def paste : List (List Char) → List Char
  | [] => []
  | [part] => part
  | part :: next :: parts => part ++ '/' :: paste (next :: parts)

/-- The path of a text. -/
def ofText (text : String) : Path :=
  match text.toList with
  | '/' :: cs => ⟨true, (cut cs).map String.ofList⟩
  | cs => ⟨false, (cut cs).map String.ofList⟩

/-- The text of a path. -/
def text (p : Path) : String :=
  String.ofList ((if p.isAbsolute then ['/'] else []) ++ paste (p.segments.map String.toList))

/-- A segment that may be left out at the end of a path, `isFirst` if it starts a relative one. -/
def isIdle (isFirst : Bool) (segment : String) : Bool :=
  segment == "" || (segment == "." && !isFirst)

/-- The segments up to the last one that names something, in a relative path counted from its
start. -/
def trimIdle (isFirst : Bool) : List String → List String
  | [] => []
  | s :: rest =>
      match trimIdle false rest with
      | [] => if isIdle isFirst s then [] else [s]
      | kept => s :: kept

/-- At least one segment. -/
def orEmpty : List String → List String
  | [] => [""]
  | segments => segments

/-- The path without its last name.  A path that names nothing has no parent. -/
def parent? (p : Path) : Option Path :=
  match trimIdle (!p.isAbsolute) p.segments with
  | [] => none
  | s :: rest =>
      some { p with segments := orEmpty (trimIdle (!p.isAbsolute) (s :: rest).dropLast) }

/-- The path of a name in a directory. -/
def join (p : Path) (name : String) : Path :=
  if p.segments.getLast? == some "" then { p with segments := p.segments.dropLast ++ [name] }
  else { p with segments := p.segments ++ [name] }

/-- The path of a file some directories down. -/
def joinAll (p : Path) (names : List String) : Path := names.foldl join p

theorem attach_ne_nil (c : Char) (parts : List (List Char)) : attach c parts ≠ [] := by
  cases parts <;> simp [attach]

theorem cut_ne_nil (cs : List Char) : cut cs ≠ [] := by
  cases cs with
  | nil => simp [cut]
  | cons c cs => rw [cut]; split <;> simp [attach_ne_nil]

theorem paste_nil_cons {parts : List (List Char)} (h : parts ≠ []) :
    paste ([] :: parts) = '/' :: paste parts := by
  cases parts with
  | nil => exact absurd rfl h
  | cons part parts => rfl

theorem paste_attach {c : Char} {parts : List (List Char)} (h : parts ≠ []) :
    paste (attach c parts) = c :: paste parts := by
  match parts with
  | [] => exact absurd rfl h
  | [part] => rfl
  | part :: next :: parts => rfl

theorem paste_cut (cs : List Char) : paste (cut cs) = cs := by
  induction cs with
  | nil => rfl
  | cons c cs ih =>
      rw [cut]
      split
      · rename_i h; rw [paste_nil_cons (cut_ne_nil cs), ih, h]
      · rw [paste_attach (cut_ne_nil cs), ih]

/-- Nothing of the text is lost. -/
theorem text_ofText (text : String) : (ofText text).text = text := by
  have key : ∀ cs : List Char, (cut cs).map (fun part => (String.ofList part).toList) = cut cs := by
    intro cs; simp
  rw [ofText]
  split
  · rename_i cs h
    simp only [Path.text, if_true, List.map_map, Function.comp_def, key, paste_cut]
    rw [List.singleton_append, ← h, String.ofList_toList]
  · simp only [Path.text, Bool.false_eq_true, if_false, List.map_map, Function.comp_def, key,
      paste_cut, List.nil_append, String.ofList_toList]

theorem length_trimIdle_le (isFirst : Bool) (segments : List String) :
    (trimIdle isFirst segments).length ≤ segments.length := by
  induction segments generalizing isFirst with
  | nil => simp [trimIdle]
  | cons s rest ih =>
      have := ih false
      rw [trimIdle]
      split
      · split <;> simp
      · simp; omega

theorem trimIdle_trimIdle (isFirst : Bool) (segments : List String) :
    trimIdle isFirst (trimIdle isFirst segments) = trimIdle isFirst segments := by
  induction segments generalizing isFirst with
  | nil => rfl
  | cons s rest ih =>
      have hrest := ih false
      rw [trimIdle]
      split
      · split
        · rfl
        · rename_i h; simp [trimIdle, h]
      · rename_i hkept
        rw [trimIdle, hrest]
        split
        · contradiction
        · rfl

/-- The number of segments that count. -/
def size (p : Path) : Nat := (trimIdle (!p.isAbsolute) p.segments).length

/-- A parent is shorter. -/
theorem size_parent_lt {p q : Path} (h : p.parent? = some q) : q.size < p.size := by
  unfold parent? at h
  split at h
  · cases h
  · rename_i s rest hs
    cases h
    have hlen := length_trimIdle_le (!p.isAbsolute) (s :: rest).dropLast
    simp only [List.length_dropLast, List.length_cons] at hlen
    simp only [size, hs, List.length_cons]
    cases hd : trimIdle (!p.isAbsolute) (s :: rest).dropLast with
    | nil => simp [orEmpty, trimIdle, isIdle]
    | cons t ts =>
        have hid := trimIdle_trimIdle (!p.isAbsolute) (s :: rest).dropLast
        rw [hd] at hid hlen
        simp only [orEmpty, hid]
        omega

/-- The path and its parents, from the nearest on. -/
def ancestors (p : Path) : List Path :=
  p :: match _h : p.parent? with
    | some above => above.ancestors
    | none => []
termination_by p.size
decreasing_by exact size_parent_lt _h

/-- One segment further, as the text says it. -/
def walk (names : List String) (segment : String) : List String :=
  if segment = "" ∨ segment = "." then names
  else if segment = ".." then names.dropLast
  else names ++ [segment]

/-- The names from the root to the place that the text of a path says, seen from a working
directory. -/
def names (p : Path) (working : List String) : List String :=
  p.segments.foldl walk (if p.isAbsolute then [] else working)

end Path
end QueryTyping
