import QueryTyping.Proofs.Check.Frame
import QueryTyping.Proofs.TypeSet.Membership

/-!
# Knowledge only narrows

No operation on a state forgets anything.  An entry that was made is kept, what is specified in it
and what is expected in it can only lose members, and a node never gets types that it could not have
before.  This holds of each operation, whatever the ids are, and an operation that fails leaves the
state as it was; so it holds of every check.

Main statements: `narrows_write` is the one fact about entries from which the operations follow,
`Narrows.types` says that with the entries the types narrow, and `run_only_narrows` says so of the run of
a check.
-/

namespace QueryTyping

/-- Later knowledge of a node: both what is specified and what is expected have shrunk. -/
structure TypeInfo.Within (later info : TypeInfo) : Prop where
  specified : ∀ t ∈ later.specified, t ∈ info.specified
  expected : ∀ before, info.expected = some before →
    ∃ after, later.expected = some after ∧ ∀ t ∈ after, t ∈ before

namespace TypeInfo.Within

variable {info later last : TypeInfo}

theorem refl (info : TypeInfo) : info.Within info :=
  ⟨fun _ ht => ht, fun before h => ⟨before, h, fun _ ht => ht⟩⟩

theorem trans (h : last.Within later) (h' : later.Within info) : last.Within info := by
  refine ⟨fun t ht => h'.specified t (h.specified t ht), fun before hbefore => ?_⟩
  obtain ⟨middle, hmiddle, hsub'⟩ := h'.expected before hbefore
  obtain ⟨after, hafter, hsub⟩ := h.expected middle hmiddle
  exact ⟨after, hafter, fun t ht => hsub' t (hsub t ht)⟩

/-- The actual types shrink with what is specified and what is expected. -/
theorem actual (h : later.Within info) : ∀ t ∈ later.actual, t ∈ info.actual := by
  intro t ht
  have hspecified : t ∈ later.specified := by
    cases hexpected : later.expected with
    | none => simpa [TypeInfo.actual, hexpected] using ht
    | some after =>
        simp only [TypeInfo.actual, hexpected, TypeSet.mem_inter] at ht
        exact ht.1
  cases hbefore : info.expected with
  | none => simpa [TypeInfo.actual, hbefore] using h.specified t hspecified
  | some before =>
      obtain ⟨after, hafter, hsub⟩ := h.expected before hbefore
      simp only [TypeInfo.actual, hafter, TypeSet.mem_inter] at ht
      simp only [TypeInfo.actual, hbefore, TypeSet.mem_inter]
      exact ⟨h.specified t ht.1, hsub t ht.2⟩

/-- A node that is specified again keeps only the types that fit both. -/
theorem respecified (info : TypeInfo) (types : TypeSet) :
    { info with specified := info.specified.inter types }.Within info :=
  ⟨fun _ ht => (TypeSet.mem_inter.mp ht).1, fun before h => ⟨before, h, fun _ ht => ht⟩⟩

/-- An expectation adds to what was expected before. -/
theorem narrow (info : TypeInfo) (possible : TypeSet) : (info.narrow possible).Within info := by
  refine ⟨fun _ ht => ht, fun before h => ⟨before.inter possible, ?_, fun _ ht => ?_⟩⟩
  · rw [TypeInfo.narrow, h]
  · exact (TypeSet.mem_inter.mp ht).1

end TypeInfo.Within

namespace State

/-- The second state knows whatever the first one knew, or more precisely, and is no older. -/
structure Narrows (s t : State) : Prop where
  infos : ∀ i info, s.info? i = some info → ∃ later, t.info? i = some later ∧ later.Within info
  revision : s.revision ≤ t.revision

variable {s t u : State} {n : Node} {possible : TypeSet}

theorem Narrows.of_eq (hinfo : ∀ i, t.info? i = s.info? i) (hrevision : s.revision ≤ t.revision) :
    s.Narrows t :=
  ⟨fun i info h => ⟨info, (hinfo i).trans h, .refl info⟩, hrevision⟩

theorem Narrows.refl (s : State) : s.Narrows s := .of_eq (fun _ => rfl) (Nat.le_refl _)

theorem Narrows.trans (hst : s.Narrows t) (htu : t.Narrows u) : s.Narrows u := by
  refine ⟨fun i info h => ?_, Nat.le_trans hst.revision htu.revision⟩
  obtain ⟨later, hlater, hwithin⟩ := hst.infos i info h
  obtain ⟨last, hlast, hwithin'⟩ := htu.infos i later hlater
  exact ⟨last, hlast, hwithin'.trans hwithin⟩

/-- **With the entries the types narrow.**  A node without an entry could have any type. -/
theorem Narrows.types (h : s.Narrows t) (i : NodeId) : ∀ ty ∈ t.types i, ty ∈ s.types i := by
  intro ty hty
  cases hinfo : s.info? i with
  | none =>
      rw [types_eq_all hinfo]
      exact TypeSet.mem_all
  | some info =>
      obtain ⟨later, hlater, hwithin⟩ := h.infos i info hinfo
      rw [State.types, hlater] at hty
      rw [State.types, hinfo]
      exact hwithin.actual ty hty

/-- To write an entry narrows the state, if the entry is within the one it replaces. -/
theorem narrows_write {i : NodeId} {later : TypeInfo}
    (h : ∀ info, s.info? i = some info → later.Within info) :
    s.Narrows { s with infos := s.infos.set i later }.next := by
  refine ⟨fun j info hj => ?_, Nat.le_succ _⟩
  by_cases heq : j = i
  · subst heq
    exact ⟨later, by simp [info?, next], h info hj⟩
  · exact ⟨info, by simpa [info?, next, heq] using hj, .refl info⟩

theorem narrows_specify (h : s.specify n possible = .ok t) : s.Narrows t := by
  obtain ⟨later, rfl, ⟨hnone, -⟩ | ⟨earlier, hearlier, rfl, -⟩⟩ := specify_cases h
  · apply narrows_write
    intro info hinfo
    rw [hnone] at hinfo
    cases hinfo
  · apply narrows_write
    intro info hinfo
    obtain rfl : earlier = info := Option.some.inj (hearlier.symm.trans hinfo)
    exact .respecified earlier possible

theorem narrows_expect (s : State) (i : NodeId) (possible : TypeSet) :
    s.Narrows (s.expect i possible) := by
  apply narrows_write
  intro info hinfo
  rw [hinfo, Option.getD_some]
  exact .narrow info possible

theorem narrows_declare {b : Binding} (h : s.declare b possible = .ok t) : s.Narrows t := by
  obtain ⟨middle, -, hspec, rfl⟩ := declare_cases h
  exact (narrows_specify hspec).trans (.of_eq (fun _ => rfl) (Nat.le_refl _))

theorem narrows_resolve {name : String} (h : s.resolve name n = .ok t) : s.Narrows t := by
  obtain ⟨symbol, middle, -, hspec, rfl⟩ := resolve_cases h
  exact (narrows_specify hspec).trans (.of_eq (fun _ => rfl) (Nat.le_refl _))

/-- An operation that fails leaves the state as it was. -/
theorem narrows_ofExcept {result : Except Problem State} (h : ∀ t, result = .ok t → s.Narrows t) :
    s.Narrows (Outcome.ofExcept s result).state := by
  cases result with
  | ok t => exact h t rfl
  | error p => exact .refl s

theorem narrows_narrow (args : List Node) (alive : List Signature) (s : State) :
    s.Narrows (narrow args alive s).1.state := by
  induction args generalizing alive s with
  | nil => exact .refl s
  | cons n args ih =>
      cases alive with
      | nil => exact .refl s
      | cons g gs =>
          simp only [narrow, state_expectTypes]
          exact (narrows_expect s n.id _).trans (ih _ _)

end State

namespace Check

open State

/-- One operation after the other: each step of a check narrows what is known. -/
theorem narrows_run (p : Check) (s : State) : s.Narrows (p.run s).state := by
  induction p generalizing s with
  | done => exact .refl s
  | report p => exact .refl s
  | specify n types => exact narrows_ofExcept fun _ h => narrows_specify h
  | expect n possible cause =>
      rw [run, state_expectTypes]
      exact narrows_expect s n.id possible
  | declare b types => exact narrows_ofExcept fun _ h => narrows_declare h
  | resolve x n => exact narrows_ofExcept fun _ h => narrows_resolve h
  | invoke n args gs =>
      exact (narrows_narrow args _ s).trans (narrows_ofExcept fun _ h => narrows_specify h)
  | andThen p q ihp ihq => exact (ihp s).trans (ihq _)
  | inScope p ih =>
      have hpush : s.Narrows s.push := .of_eq (fun _ => rfl) (Nat.le_succ _)
      have hpop : (p.run s.push).state.Narrows (p.run s.push).state.pop :=
        .of_eq (fun _ => rfl) (Nat.le_succ _)
      exact (hpush.trans (ih s.push)).trans hpop

/-- **Knowledge only narrows.**  Whatever a check does and whatever it reports, each node has in the
end only types that it could have before, each entry is kept with what is specified and what is
expected in it at most smaller, and the state is no older than it was. -/
theorem run_only_narrows (p : Check) (s : State) :
    let after := (p.run s).state
    (∀ i, ∀ t ∈ after.types i, t ∈ s.types i) ∧
      (∀ i info, s.info? i = some info →
        ∃ later, after.info? i = some later ∧ later.Within info) ∧
      s.revision ≤ after.revision := by
  have hnarrows := narrows_run p s
  exact ⟨hnarrows.types, hnarrows.infos, hnarrows.revision⟩

end Check
end QueryTyping
