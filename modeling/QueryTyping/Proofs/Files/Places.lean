import Mathlib.Data.List.Induction
import Mathlib.Data.String.Basic
import QueryTyping.Files.Tree

/-!
# Where paths lead

A path is followed in a tree, and its text can also be read name by name without any tree.  Where
the path can be followed, both end at the same place, and each place on the way that has a name
after it is a directory.  The last name of a path to a file is that of the file, and the names
before it lead to its directory.

Main statements: `place_of_followAll` says that both end at the same place, `exists_name_of_file`
what a path to a file looks like, `trimIdle_concat` which segments a parent keeps, and
`utf8ByteSize_text_le` that leaving segments out does not make a text longer.
-/

namespace QueryTyping

namespace FileEntry

theorem at?_append (e : FileEntry) (names more : List String) :
    e.at? (names ++ more) = (e.at? names).bind fun d => d.at? more := by
  induction names generalizing e with
  | nil => rfl
  | cons name names ih => simp only [List.cons_append, at?, ih, Option.bind_assoc]

theorem at?_concat (e : FileEntry) (names : List String) (name : String) :
    e.at? (names ++ [name]) = (e.at? names).bind fun d => d.entries.lookup name := by
  simp only [at?_append, at?, Option.bind_fun_some]

end FileEntry

namespace Path

/-- Leaving texts out leaves characters out. -/
theorem paste_sublist {parts more : List (List Char)} (h : parts.Sublist more) :
    (paste parts).Sublist (paste more) := by
  induction h with
  | slnil => exact .refl _
  | @cons parts more part h ih =>
      cases more with
      | nil =>
          obtain rfl := List.sublist_nil.mp h
          exact List.nil_sublist _
      | cons next more =>
          exact ih.trans ((List.sublist_cons_self ..).trans (List.sublist_append_right ..))
  | @cons_cons parts more part h ih =>
      match parts, more with
      | [], [] => exact .refl _
      | [], _ :: _ => exact List.sublist_append_left ..
      | _ :: _, _ :: _ => exact (List.Sublist.refl part).append (ih.cons_cons '/')

theorem utf8ByteSize_text_le {isAbsolute : Bool} {segments more : List String}
    (h : segments.Sublist more) :
    (Path.mk isAbsolute segments).text.utf8ByteSize ≤
      (Path.mk isAbsolute more).text.utf8ByteSize := by
  simp only [text, String.utf8ByteSize_ofList]
  exact String.utf8Len_le_of_sublist ((List.Sublist.refl _).append (paste_sublist (h.map _)))

/-- All segments stay if the last one names something; otherwise it goes, and then the one before it
may go. -/
theorem trimIdle_concat (isFirst : Bool) (segments : List String) (s : String) :
    trimIdle isFirst (segments ++ [s]) =
      if isIdle (isFirst && segments.isEmpty) s then trimIdle isFirst segments
      else segments ++ [s] := by
  induction segments generalizing isFirst with
  | nil => simp [trimIdle]
  | cons first rest ih =>
      have hfirst : (isFirst && (first :: rest).isEmpty) = false := Bool.and_false isFirst
      rw [hfirst, List.cons_append, trimIdle, ih false, Bool.false_and]
      by_cases idle : isIdle false s = true
      · rw [if_pos idle, if_pos idle, trimIdle]
      · rw [if_neg idle, if_neg idle]
        cases rest <;> rfl

end Path

namespace FileTree

variable {t : FileTree} {place next : List String} {segment : String}

/-- There is a directory at a place. -/
def HasDirectory (t : FileTree) (place : List String) : Prop :=
  ∃ es, t.root.at? place = some (.directory es)

/-- What has an entry is a directory. -/
theorem hasDirectory_of_at?_concat {e : FileEntry} {name : String}
    (h : t.root.at? (place ++ [name]) = some e) : t.HasDirectory place := by
  rw [FileEntry.at?_concat] at h
  obtain ⟨d, hd, hentry⟩ := Option.bind_eq_some_iff.mp h
  cases d with
  | file content => cases hentry
  | directory es => exact ⟨es, hd⟩

theorem HasDirectory.dropLast (h : t.HasDirectory place) : t.HasDirectory place.dropLast := by
  rcases List.eq_nil_or_concat' place with rfl | ⟨above, name, rfl⟩
  · exact h
  · obtain ⟨es, hes⟩ := h
    rw [List.dropLast_concat]
    exact hasDirectory_of_at?_concat hes

/-- A segment is followed from a directory, and as its text says. -/
theorem follow_ok (h : t.follow place segment = .ok next) :
    t.HasDirectory place ∧ next = Path.walk place segment := by
  unfold follow at h
  unfold Path.walk
  split at h
  · rename_i es hes
    refine ⟨⟨es, hes⟩, ?_⟩
    split_ifs at h ⊢ <;> cases h <;> rfl
  · cases h
  · cases h

/-- In a directory, a name leads to its entry. -/
theorem follow_name (h : t.HasDirectory place) (hempty : segment ≠ "") (hdot : segment ≠ ".")
    (hup : segment ≠ "..") (hlimit : segment.utf8ByteSize ≤ nameLimit) :
    t.follow place segment =
      if (t.root.at? (place ++ [segment])).isSome then .ok (place ++ [segment])
      else .error .notFound := by
  obtain ⟨es, hes⟩ := h
  rw [FileEntry.at?_concat, hes, follow, hes]
  simp only [hempty, hdot, hup, or_self, if_false, if_neg (Nat.not_lt.mpr hlimit)]
  rfl

/-- The last segment is followed from where the others lead. -/
theorem followAll_concat {segments : List String}
    (h : (segments ++ [segment]).foldlM t.follow place = .ok next) :
    ∃ between,
      segments.foldlM t.follow place = .ok between ∧ t.follow between segment = .ok next := by
  rw [List.foldlM_append] at h
  cases hs : segments.foldlM t.follow place with
  | error e => rw [hs] at h; cases h
  | ok between =>
      rw [hs] at h
      exact ⟨between, rfl, (bind_pure (t.follow between segment)).symm.trans h⟩

/-- Following segments and reading them leads to the same place. -/
theorem place_of_followAll {segments : List String}
    (h : segments.foldlM t.follow place = .ok next) : next = segments.foldl Path.walk place := by
  induction segments using List.reverseRecOn generalizing next with
  | nil => cases h; rfl
  | append_singleton segments s ih =>
      obtain ⟨between, hsegments, hs⟩ := followAll_concat h
      rw [List.foldl_concat, ← ih hsegments]
      exact (follow_ok hs).2

/-- Where the first segment of a path is followed from. -/
def start (t : FileTree) (isAbsolute : Bool) : List String := if isAbsolute then [] else t.working

theorem resolve_of_fits {p : Path} (hpos : 0 < p.text.utf8ByteSize)
    (hfits : p.text.utf8ByteSize < pathLimit) :
    t.resolve p = p.segments.foldlM t.follow (t.start p.isAbsolute) := by
  have htext : p.text ≠ "" := fun h => by simp [h] at hpos
  rw [resolve, if_neg htext, if_neg (by omega), start]

theorem followAll_of_resolve {p : Path} (h : t.resolve p = .ok place) :
    p.segments.foldlM t.follow (t.start p.isAbsolute) = .ok place := by
  unfold resolve at h
  split at h
  · cases h
  · split at h
    · cases h
    · exact h

/-- Only the path of the root has no segments. -/
theorem place_of_nil {isAbsolute : Bool} (h : t.resolve ⟨isAbsolute, []⟩ = .ok place) :
    place = [] ∧ t.start isAbsolute = [] := by
  have hall := followAll_of_resolve h
  cases isAbsolute with
  | false => cases h
  | true =>
      cases hall
      exact ⟨rfl, rfl⟩

theorem exists_name_of_file {p : Path} {content : ByteArray} (h : t.resolve p = .ok place)
    (hfile : t.root.at? place = some (.file content)) (hne : p.segments ≠ []) :
    ∃ names name, p.segments = names ++ [name] ∧ name ≠ "" ∧ name ≠ "." ∧
      names.foldlM t.follow (t.start p.isAbsolute) = .ok place.dropLast ∧
        t.HasDirectory place.dropLast := by
  obtain ⟨names, name, hsegments⟩ := (List.eq_nil_or_concat' p.segments).resolve_left hne
  have hall := followAll_of_resolve h
  rw [hsegments] at hall
  obtain ⟨between, hnames, hname⟩ := followAll_concat hall
  obtain ⟨hdirectory, hnext⟩ := follow_ok hname
  -- The other segments lead from one directory to another.
  have hother : ∀ above, t.HasDirectory above → place ≠ above := by
    rintro above ⟨es, hes⟩ rfl
    rw [hfile] at hes
    cases hes
  have hreal : name ≠ "" ∧ name ≠ "." ∧ name ≠ ".." := by
    refine ⟨?_, ?_, ?_⟩ <;> rintro rfl
    · exact hother _ hdirectory hnext
    · exact hother _ hdirectory hnext
    · exact hother _ hdirectory.dropLast hnext
  have hplace : place = between ++ [name] := by
    rw [hnext, Path.walk, if_neg (by simp [hreal]), if_neg hreal.2.2]
  rw [hplace, List.dropLast_concat]
  exact ⟨names, name, hsegments, hreal.1, hreal.2.1, hnames, hdirectory⟩

/-- The segments before the last one lead to the directory of a file. -/
theorem directory_of_file {p : Path} {content : ByteArray} (h : t.resolve p = .ok place)
    (hfile : t.root.at? place = some (.file content)) :
    place.dropLast = p.segments.dropLast.foldl Path.walk (t.start p.isAbsolute) := by
  obtain ⟨isAbsolute, segments⟩ := p
  by_cases hnil : segments = []
  · subst hnil
    obtain ⟨rfl, hstart⟩ := place_of_nil h
    exact hstart.symm
  · obtain ⟨names, name, hsegments, -, -, hfollow, -⟩ := exists_name_of_file h hfile hnil
    obtain rfl : segments = names ++ [name] := hsegments
    rw [List.dropLast_concat]
    exact place_of_followAll hfollow

theorem isFile_of_resolve {p : Path} (h : t.resolve p = .ok place) :
    t.isFile p = (t.root.at? place).any FileEntry.isFile := by
  cases hat : t.root.at? place with
  | none =>
      have hentry : t.entry p = .error .notFound := by
        simp only [entry, h, bind, Except.bind, hat]
      rw [isFile, hentry]
      rfl
  | some e =>
      have hentry : t.entry p = .ok e := by simp only [entry, h, bind, Except.bind, hat]
      rw [isFile, hentry]
      rfl

theorem isFile_of_error {p : Path} {error : AccessError} (h : t.resolve p = .error error) :
    t.isFile p = false := by
  rw [isFile, entry, h]
  rfl

end FileTree
end QueryTyping
