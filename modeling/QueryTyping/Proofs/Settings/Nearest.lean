import Mathlib.Data.List.Induction
import Mathlib.Data.List.Infix
import QueryTyping.CommandLine.Run
import QueryTyping.Proofs.Files.Places
import QueryTyping.Settings.Discovery

/-!
# The nearest settings

The settings of a document are looked for in the places that the path of the document passes, from
the last one back.  As long as the path only goes down, these are the directories at or above that
of the document, as far as the one that the path starts from, so what is found is nearest.

A path may also pass `..`.  Then the text of the path goes back to places that are not above the
document.  And a relative path never goes above the working directory, where the nearest settings
may be.

Main statements: `discover_wayBack` says which settings are found for any path,
`find?_wayBack_eq_some_iff` that they are nearest if the path only goes down.  Together they give
`discover_nearest`.
-/

namespace QueryTyping

namespace Path

/-- The path of some segments up to the last one that names something. -/
def upTo (isAbsolute : Bool) (segments : List String) : Path :=
  ⟨isAbsolute, orEmpty (trimIdle (!isAbsolute) segments)⟩

/-- The places that segments pass, the last one first. -/
def wayBack (place : List String) (segments : List String) : List (List String) :=
  (segments.scanl walk place).reverse

variable {isAbsolute : Bool} {place segments : List String} {s : String}

theorem walk_of_idle {isFirst : Bool} (h : isIdle isFirst s = true) : walk place s = place := by
  unfold walk
  rw [if_pos]
  simp only [isIdle, Bool.or_eq_true, Bool.and_eq_true, beq_iff_eq] at h
  exact h.imp_right And.left

theorem ne_empty_of_not_idle {isFirst : Bool} (h : ¬isIdle isFirst s = true) : s ≠ "" := by
  rintro rfl
  exact h rfl

theorem upTo_concat_of_idle (h : isIdle (!isAbsolute && segments.isEmpty) s = true) :
    upTo isAbsolute (segments ++ [s]) = upTo isAbsolute segments := by
  rw [upTo, trimIdle_concat, if_pos h, upTo]

theorem upTo_concat (h : ¬isIdle (!isAbsolute && segments.isEmpty) s = true) :
    upTo isAbsolute (segments ++ [s]) = ⟨isAbsolute, segments ++ [s]⟩ := by
  rw [upTo, trimIdle_concat, if_neg h]
  cases segments <;> rfl

theorem parent?_upTo_nil : (upTo isAbsolute []).parent? = none := by
  cases isAbsolute <;> rfl

theorem parent?_concat (h : ¬isIdle (!isAbsolute && segments.isEmpty) s = true) :
    (Path.mk isAbsolute (segments ++ [s])).parent? = some (upTo isAbsolute segments) := by
  have hkept : trimIdle (!isAbsolute) (segments ++ [s]) = segments ++ [s] := by
    rw [trimIdle_concat, if_neg h]
  unfold parent?
  split
  · rename_i hnil
    exact absurd (hkept.symm.trans hnil) (List.concat_ne_nil s segments)
  · rename_i first rest hcons
    rw [← hcons, hkept, List.dropLast_concat, upTo]

theorem join_upTo_nil (isAbsolute : Bool) (name : String) :
    (upTo isAbsolute []).join name = ⟨isAbsolute, [name]⟩ := by
  cases isAbsolute <;> rfl

theorem join_concat (h : s ≠ "") (name : String) :
    (Path.mk isAbsolute (segments ++ [s])).join name =
      ⟨isAbsolute, segments ++ [s] ++ [name]⟩ := by
  rw [join, if_neg (by simpa using h)]

theorem wayBack_concat :
    wayBack place (segments ++ [s]) =
      walk (segments.foldl walk place) s :: wayBack place segments := by
  simp [wayBack, List.scanl_append]

/-- The way back begins where the segments lead. -/
theorem wayBack_eq_cons (place segments : List String) :
    ∃ more, wayBack place segments = segments.foldl walk place :: more := by
  rcases List.eq_nil_or_concat' segments with rfl | ⟨above, s, rfl⟩
  · exact ⟨[], rfl⟩
  · exact ⟨_, by rw [wayBack_concat, List.foldl_concat]⟩

/-- A segment that goes down stays at a place or gives it a name more. -/
theorem walk_eq_or (place : List String) (h : s ≠ "..") :
    walk place s = place ∨ walk place s = place ++ [s] := by
  unfold walk
  rw [if_neg h]
  split
  · exact .inl rfl
  · exact .inr rfl

theorem prefix_walk (h : s ≠ "..") : place <+: walk place s := by
  rcases walk_eq_or place h with hs | hs <;> rw [hs]
  · exact List.prefix_append place [s]

theorem prefix_foldl_walk (h : ".." ∉ segments) : place <+: segments.foldl walk place := by
  induction segments generalizing place with
  | nil => exact List.prefix_rfl
  | cons s rest ih =>
      obtain ⟨hs, hrest⟩ := not_or.mp (mt List.mem_cons.mpr h)
      exact (prefix_walk (Ne.symm hs)).trans (ih hrest)

/-- Segments that go down pass the places between the first and the last one. -/
theorem mem_wayBack_iff (h : ".." ∉ segments) {d : List String} :
    d ∈ wayBack place segments ↔ place <+: d ∧ d <+: segments.foldl walk place := by
  induction segments using List.reverseRecOn with
  | nil =>
      rw [wayBack, List.scanl_nil, List.reverse_singleton, List.mem_singleton, List.foldl_nil]
      refine ⟨?_, fun ⟨hplace, hd⟩ => antisymm hd hplace⟩
      rintro rfl
      exact ⟨List.prefix_rfl, List.prefix_rfl⟩
  | append_singleton segments s ih =>
      obtain ⟨hsegments, hs⟩ := not_or.mp (mt List.mem_append.mpr h)
      have hplace : place <+: segments.foldl walk place := prefix_foldl_walk hsegments
      rw [wayBack_concat, List.mem_cons, ih hsegments, List.foldl_concat]
      have hs : s ≠ ".." := fun h => hs (h ▸ List.mem_singleton_self _)
      rcases walk_eq_or (segments.foldl walk place) hs with hwalk | hwalk <;> rw [hwalk]
      · refine or_iff_right_of_imp ?_
        rintro rfl
        exact ⟨hplace, List.prefix_rfl⟩
      · rw [List.prefix_concat_iff, and_or_left]
        refine or_congr_left (iff_and_self.mpr ?_)
        rintro rfl
        exact hplace.trans (List.prefix_append _ [s])

/-- On the way back of segments that go down, each place is above those before it. -/
theorem wayBack_pairwise (place : List String) (h : ".." ∉ segments) :
    (wayBack place segments).Pairwise fun below above => above <+: below := by
  induction segments using List.reverseRecOn with
  | nil => exact List.pairwise_singleton _ place
  | append_singleton segments s ih =>
      obtain ⟨hsegments, hs⟩ := not_or.mp (mt List.mem_append.mpr h)
      rw [wayBack_concat, List.pairwise_cons]
      refine ⟨fun d hd => ?_, ih hsegments⟩
      exact ((mem_wayBack_iff hsegments).mp hd).2.trans
        (prefix_walk fun h => hs (h ▸ List.mem_singleton_self _))

end Path

namespace FileTree

/-- There is a settings file in a directory. -/
def hasSettings (t : FileTree) (dir : List String) : Bool :=
  (t.root.at? (dir ++ [settingsFile])).any FileEntry.isFile

/-- A directory is the nearest one with settings, at or above a directory. -/
structure IsNearest (t : FileTree) (own dir : List String) : Prop where
  above : dir <+: own
  found : t.hasSettings dir = true
  nearest : ∀ d, d <+: own → t.hasSettings d = true → d <+: dir

theorem isNearest_iff {t : FileTree} {own dir : List String} :
    t.IsNearest own dir ↔
      dir <+: own ∧ t.hasSettings dir = true ∧
        ∀ d ∈ own.inits, t.hasSettings d = true → d <+: dir := by
  simp only [List.mem_inits]
  exact ⟨fun h => ⟨h.above, h.found, h.nearest⟩,
    fun ⟨above, found, nearest⟩ => ⟨above, found, nearest⟩⟩

instance (t : FileTree) (own dir : List String) : Decidable (t.IsNearest own dir) :=
  decidable_of_iff' _ isNearest_iff

variable {t : FileTree} {isAbsolute : Bool} {segments own dir : List String}

/-- The path of the settings file is short enough to be followed. -/
def Fits (isAbsolute : Bool) (segments : List String) : Prop :=
  (Path.mk isAbsolute (segments ++ [settingsFile])).text.utf8ByteSize < pathLimit

instance (isAbsolute : Bool) (segments : List String) : Decidable (Fits isAbsolute segments) :=
  inferInstanceAs (Decidable (_ < _))

/-- Segments lead to a directory, and the settings file in it can be looked for. -/
structure LeadsTo (t : FileTree) (isAbsolute : Bool) (segments dir : List String) : Prop where
  follows : segments.foldlM t.follow (t.start isAbsolute) = .ok dir
  directory : t.HasDirectory dir
  fits : Fits isAbsolute segments

theorem LeadsTo.place_eq (h : t.LeadsTo isAbsolute segments dir) :
    dir = segments.foldl Path.walk (t.start isAbsolute) :=
  place_of_followAll h.follows

/-- The segments before the last one lead to a directory too. -/
theorem LeadsTo.before {s : String} (h : t.LeadsTo isAbsolute (segments ++ [s]) dir) :
    ∃ above, t.LeadsTo isAbsolute segments above ∧ dir = Path.walk above s := by
  obtain ⟨above, habove, hs⟩ := followAll_concat h.follows
  obtain ⟨hdirectory, hwalk⟩ := follow_ok hs
  refine ⟨above, ⟨habove, hdirectory, ?_⟩, hwalk⟩
  refine Nat.lt_of_le_of_lt (Path.utf8ByteSize_text_le ?_) h.fits
  exact (List.sublist_append_left segments [s]).append_right [settingsFile]

/-- The path of a settings file is followed through its directory. -/
theorem LeadsTo.resolve_settingsFile (h : t.LeadsTo isAbsolute segments dir) :
    t.resolve ⟨isAbsolute, segments ++ [settingsFile]⟩ =
      if (t.root.at? (dir ++ [settingsFile])).isSome then .ok (dir ++ [settingsFile])
      else .error .notFound := by
  have hpos : 0 < (Path.mk isAbsolute (segments ++ [settingsFile])).text.utf8ByteSize := by
    refine Nat.lt_of_lt_of_le ?_
      (Path.utf8ByteSize_text_le (List.sublist_append_right segments [settingsFile]))
    cases isAbsolute <;> decide
  rw [resolve_of_fits hpos h.fits, List.foldlM_append, h.follows,
    ← follow_name h.directory (by decide) (by decide) (by decide) (by decide)]
  exact bind_pure (t.follow dir settingsFile)

theorem LeadsTo.isFile_settingsFile (h : t.LeadsTo isAbsolute segments dir) :
    t.isFile ⟨isAbsolute, segments ++ [settingsFile]⟩ = t.hasSettings dir := by
  have hresolve := h.resolve_settingsFile
  unfold hasSettings
  cases hentry : t.root.at? (dir ++ [settingsFile]) with
  | none =>
      rw [hentry] at hresolve
      rw [isFile_of_error hresolve]
      rfl
  | some e =>
      rw [hentry] at hresolve
      rw [isFile_of_resolve hresolve, hentry]

theorem LeadsTo.resolve_of_hasSettings (h : t.LeadsTo isAbsolute segments dir)
    (hfound : t.hasSettings dir = true) :
    t.resolve ⟨isAbsolute, segments ++ [settingsFile]⟩ = .ok (dir ++ [settingsFile]) := by
  rw [h.resolve_settingsFile, if_pos (Option.isSome_of_any hfound)]

/-- The search looks in a directory first and then further up. -/
theorem LeadsTo.discoverFrom_eq {p : Path} (h : t.LeadsTo isAbsolute segments dir)
    (hjoin : p.join settingsFile = ⟨isAbsolute, segments ++ [settingsFile]⟩) :
    (t.discoverFrom p).map t.resolve =
      if t.hasSettings dir then some (.ok (dir ++ [settingsFile]))
      else (p.parent?.bind t.discoverFrom).map t.resolve := by
  have hfile := h.isFile_settingsFile
  rw [← hjoin] at hfile
  cases hfound : t.hasSettings dir with
  | true =>
      rw [discoverFrom_of_isFile (hfile.trans hfound), hjoin, if_pos rfl]
      exact congrArg some (h.resolve_of_hasSettings hfound)
  | false =>
      rw [discoverFrom_of_not_isFile (hfile.trans hfound)]
      rfl

/-- The search from where segments lead looks in the places on their way back. -/
theorem LeadsTo.discoverFrom_upTo (h : t.LeadsTo isAbsolute segments dir) :
    (t.discoverFrom (Path.upTo isAbsolute segments)).map t.resolve =
      ((Path.wayBack (t.start isAbsolute) segments).find? t.hasSettings).map
        fun d => .ok (d ++ [settingsFile]) := by
  induction segments using List.reverseRecOn generalizing dir with
  | nil =>
      have hstart : dir = t.start isAbsolute := h.place_eq
      rw [h.discoverFrom_eq (Path.join_upTo_nil isAbsolute settingsFile), Path.parent?_upTo_nil,
        Path.wayBack, List.scanl_nil, List.reverse_singleton, List.find?_singleton, hstart]
      cases t.hasSettings (t.start isAbsolute) <;> rfl
  | append_singleton segments s ih =>
      obtain ⟨above, habove, hwalk⟩ := h.before
      rw [Path.wayBack_concat, ← habove.place_eq, ← hwalk, List.find?_cons]
      by_cases idle : Path.isIdle (!isAbsolute && segments.isEmpty) s = true
      · -- The segment is left out, and the place before it is looked at twice.
        have hsame : dir = above := hwalk.trans (Path.walk_of_idle idle)
        obtain ⟨more, hmore⟩ := Path.wayBack_eq_cons (t.start isAbsolute) segments
        rw [Path.upTo_concat_of_idle idle, ih habove, hsame, hmore, ← habove.place_eq,
          List.find?_cons]
        cases t.hasSettings above <;> rfl
      · have hne : s ≠ "" := Path.ne_empty_of_not_idle idle
        rw [Path.upTo_concat idle, h.discoverFrom_eq (Path.join_concat hne settingsFile),
          Path.parent?_concat idle, Option.bind_some, ih habove]
        cases t.hasSettings dir <;> rfl

theorem hasSettings_of_file {content : ByteArray} (h : t.root.at? dir = some (.file content)) :
    t.hasSettings dir = false := by
  rw [hasSettings, FileEntry.at?_concat, h]
  rfl

/-- The settings of a document are those at the first place on the way back of its path. -/
theorem discover_wayBack {p : Path} {place : List String} {content : ByteArray}
    (hplace : t.resolve p = .ok place) (hfile : t.root.at? place = some (.file content))
    (hfits : Fits p.isAbsolute p.segments.dropLast) :
    (t.discover p).map t.resolve =
      ((Path.wayBack (t.start p.isAbsolute) p.segments.dropLast).find? t.hasSettings).map
        fun d => .ok (d ++ [settingsFile]) := by
  have hisFile : t.isFile p = true := by rw [isFile_of_resolve hplace, hfile]; rfl
  rw [discover, if_pos hisFile]
  obtain ⟨isAbsolute, segments⟩ := p
  by_cases hnil : segments = []
  · -- The root is itself the document.
    subst hnil
    obtain ⟨rfl, hstart⟩ := place_of_nil hplace
    have hnone := hasSettings_of_file hfile
    simp [Path.parent?, Path.trimIdle, Path.wayBack, hstart, hnone]
  · obtain ⟨names, name, hsegments, hempty, hdot, hfollow, hdir⟩ :=
      exists_name_of_file hplace hfile hnil
    obtain rfl : segments = names ++ [name] := hsegments
    rw [List.dropLast_concat] at hfits ⊢
    have idle : ¬Path.isIdle (!isAbsolute && names.isEmpty) name = true := by
      simp [Path.isIdle, hempty, hdot]
    rw [Path.parent?_concat idle]
    exact LeadsTo.discoverFrom_upTo ⟨hfollow, hdir, hfits⟩

/-- There is only one nearest directory. -/
theorem IsNearest.unique {other : List String} (h : t.IsNearest own dir)
    (hother : t.IsNearest own other) : dir = other :=
  antisymm (hother.nearest dir h.above h.found) (h.nearest other hother.above hother.found)

/-- Where segments go down, the first place on the way back with settings is the nearest directory
with settings. -/
theorem isNearest_of_find?_wayBack {start : List String} (hdown : ".." ∉ segments)
    (hfind : (Path.wayBack start segments).find? t.hasSettings = some dir) :
    t.IsNearest (segments.foldl Path.walk start) dir ∧ start <+: dir := by
  obtain ⟨hstart, habove⟩ := (Path.mem_wayBack_iff hdown).mp (List.mem_of_find?_eq_some hfind)
  obtain ⟨hfound, before, after, hsplit, hbefore⟩ := List.find?_eq_some_iff_append.mp hfind
  refine ⟨⟨habove, hfound, fun d hd hsettings => ?_⟩, hstart⟩
  rcases List.prefix_or_prefix_of_prefix hd (Path.prefix_foldl_walk hdown) with hup | hbelow
  · exact hup.trans hstart
  · -- The places before the one found have no settings, those after it are above it.
    have hmem := (Path.mem_wayBack_iff hdown).mpr ⟨hbelow, hd⟩
    have hsorted := Path.wayBack_pairwise start hdown
    rw [hsplit] at hmem hsorted
    have hafter := (List.pairwise_cons.mp (List.pairwise_append.mp hsorted).2.1).1
    rcases List.mem_append.mp hmem with hmem | hmem
    · exact absurd hsettings (by simpa using hbefore d hmem)
    · rcases List.mem_cons.mp hmem with rfl | hmem
      · exact List.prefix_rfl
      · exact hafter d hmem

/-- Where segments go down, the nearest directory with settings is found unless it is above the
place where they start. -/
theorem find?_wayBack_eq_some_iff {start : List String} (hdown : ".." ∉ segments) :
    (Path.wayBack start segments).find? t.hasSettings = some dir ↔
      t.IsNearest (segments.foldl Path.walk start) dir ∧ start <+: dir := by
  refine ⟨isNearest_of_find?_wayBack hdown, fun ⟨hnearest, hstart⟩ => ?_⟩
  have hmem := (Path.mem_wayBack_iff hdown).mpr ⟨hstart, hnearest.above⟩
  have hsome := List.find?_isSome.mpr ⟨dir, hmem, hnearest.found⟩
  obtain ⟨d, hfind⟩ := Option.isSome_iff_exists.mp hsome
  rw [hfind, hnearest.unique (isNearest_of_find?_wayBack hdown hfind).1]

/-- Where segments go down, nothing is found on the way back if the directories from the start on
have no settings. -/
theorem find?_wayBack_eq_none_iff {start : List String} (hdown : ".." ∉ segments) :
    (Path.wayBack start segments).find? t.hasSettings = none ↔
      ∀ d, start <+: d → d <+: segments.foldl Path.walk start → t.hasSettings d = false := by
  simp only [List.find?_eq_none, Path.mem_wayBack_iff hdown, Bool.not_eq_true, and_imp]

theorem settingsFor_of_discover {p q : Path} (h : t.discover p = some q) :
    Session.settingsFor t none p = Session.readSettings t q := by
  simp only [Session.settingsFor, h]

theorem settingsFor_of_discover_none {p : Path} (h : t.discover p = none) :
    Session.settingsFor t none p = pure .default := by
  simp only [Session.settingsFor, h]

/-- **Where settings are found.**  The settings of a document are those at the first place on the
way back of its path that has some.  If the path only goes down, that is the nearest directory at or
above that of the document, as long as it is not above the directory where the path starts, which is
the root if the path is absolute; and there are the defaults exactly if none of the directories from
there on has settings.  The path of the settings file next to the document has to be short enough to
be followed. -/
theorem discover_nearest {p : Path} {place : List String} {content : ByteArray}
    (hplace : t.resolve p = .ok place) (hfile : t.root.at? place = some (.file content))
    (hfits : Fits p.isAbsolute p.segments.dropLast) :
    (t.discover p).map t.resolve =
        ((Path.wayBack (t.start p.isAbsolute) p.segments.dropLast).find? t.hasSettings).map
          (fun dir => .ok (dir ++ [settingsFile])) ∧
      (".." ∉ p.segments →
        (∀ dir, t.IsNearest place.dropLast dir ∧ t.start p.isAbsolute <+: dir ↔
          ∃ q, t.discover p = some q ∧ t.resolve q = .ok (dir ++ [settingsFile]) ∧
            Session.settingsFor t none p = Session.readSettings t q) ∧
        ((∀ dir, t.start p.isAbsolute <+: dir → dir <+: place.dropLast →
            t.hasSettings dir = false) ↔
          t.discover p = none ∧ Session.settingsFor t none p = pure .default)) := by
  have hdiscover := discover_wayBack hplace hfile hfits
  refine ⟨hdiscover, fun hup => ?_⟩
  have hdown : ".." ∉ p.segments.dropLast := mt List.mem_of_mem_dropLast hup
  rw [directory_of_file hplace hfile, ← find?_wayBack_eq_none_iff hdown]
  constructor
  · intro dir
    rw [← find?_wayBack_eq_some_iff hdown]
    constructor
    · intro hfind
      rw [hfind] at hdiscover
      obtain ⟨q, hq, hresolve⟩ := Option.map_eq_some_iff.mp hdiscover
      exact ⟨q, hq, hresolve, settingsFor_of_discover hq⟩
    · rintro ⟨q, hq, hresolve, -⟩
      rw [hq, Option.map_some, hresolve] at hdiscover
      obtain ⟨d, hd, heq⟩ := Option.map_eq_some_iff.mp hdiscover.symm
      rw [hd, List.append_cancel_right (Except.ok.inj heq)]
  · rw [← Option.map_eq_none_iff (f := t.resolve), hdiscover, Option.map_eq_none_iff]
    refine (and_iff_left_of_imp fun hnone => settingsFor_of_discover_none ?_).symm
    rw [hnone] at hdiscover
    exact Option.map_eq_none_iff.mp hdiscover

/-- The settings in the working directory apply to a document in a directory below it without
settings, and not those above. -/
theorem discover_nearest_below :
    let settings := (settingsFile, FileEntry.file .empty)
    let b := FileEntry.directory [("q.json", .file .empty)]
    let t : FileTree := ⟨.directory [settings, ("a", .directory [settings, ("b", b)])], ["a"]⟩
    let p := Path.ofText "./b//q.json"
    t.resolve p = .ok ["a", "b", "q.json"] ∧ Fits p.isAbsolute p.segments.dropLast ∧
      ".." ∉ p.segments ∧ t.IsNearest ["a", "b"] ["a"] ∧
      ∃ q, t.discover p = some q ∧ t.resolve q = .ok ["a", settingsFile] ∧
        Session.settingsFor t none p = Session.readSettings t q := by
  intro settings b t p
  have hplace : t.resolve p = .ok ["a", "b", "q.json"] := by rfl
  have hfits : Fits p.isAbsolute p.segments.dropLast := by decide
  have hup : ".." ∉ p.segments := by decide
  have hnearest : t.IsNearest ["a", "b"] ["a"] := by decide
  have hfile : t.root.at? ["a", "b", "q.json"] = some (.file .empty) := by rfl
  obtain ⟨-, hdown⟩ := discover_nearest hplace hfile hfits
  exact ⟨hplace, hfits, hup, hnearest, ((hdown hup).1 ["a"]).mp ⟨hnearest, by decide⟩⟩

/-- The path of a document goes through a directory that is not above it, and the settings there are
taken and not the nearest ones, in the root.  A document in the working directory, named without a
directory, gets the defaults although the nearest settings are in the root. -/
theorem discover_not_nearest :
    let integer := (settingsFile, FileEntry.file "[variables]\nx = \"Integer\"\n".toUTF8)
    let string := (settingsFile, FileEntry.file "[variables]\nx = \"String\"\n".toUTF8)
    let document := ("q.json", FileEntry.file .empty)
    let beside : FileTree :=
      ⟨.directory [integer, ("b", .directory [document, ("a", .directory [string])])], []⟩
    let throughA := Path.ofText "b/a/../q.json"
    let above : FileTree := ⟨.directory [integer, ("b", .directory [document])], ["b"]⟩
    let plain := Path.ofText "q.json"
    (beside.resolve throughA = .ok ["b", "q.json"] ∧ beside.IsNearest ["b"] [] ∧
        beside.discover throughA = some (.ofText "b/a/quarry.toml") ∧
        Session.settingsFor beside none throughA =
          Session.readSettings beside (.ofText "b/a/quarry.toml")) ∧
      above.resolve plain = .ok ["b", "q.json"] ∧ above.IsNearest ["b"] [] ∧
        above.discover plain = none ∧ Session.settingsFor above none plain = pure .default := by
  intro integer string document beside throughA above plain
  have hbeside : beside.discover throughA = some (.ofText "b/a/quarry.toml") := by
    rw [discover, if_pos (by decide)]
    change beside.discoverFrom ⟨false, ["b", "a", ".."]⟩ = _
    rw [discoverFrom_of_not_isFile (by decide)]
    change beside.discoverFrom ⟨false, ["b", "a"]⟩ = _
    rw [discoverFrom_of_isFile (by decide)]
    rfl
  have habove : above.discover plain = none := by
    rw [discover, if_pos (by decide)]
    change above.discoverFrom ⟨false, [""]⟩ = _
    rw [discoverFrom_of_not_isFile (by decide)]
    rfl
  exact ⟨⟨rfl, by decide, hbeside, settingsFor_of_discover hbeside⟩, rfl, by decide, habove,
    settingsFor_of_discover_none habove⟩

end FileTree
end QueryTyping
