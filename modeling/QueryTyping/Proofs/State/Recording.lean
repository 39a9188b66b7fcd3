import Mathlib.Data.List.Induction
import QueryTyping.Proofs.Check.Overload
import QueryTyping.Proofs.State.WellFormed

/-!
# Types are recorded in any order

Two operations record types of a node: a specification says what the node is, an expectation what
its place accepts.  They write to two fields of one entry, and the entry is made by whichever comes
first.  In each field sets are only ever intersected, so two such operations give the same entry in
either order, and any number of them in any order.

A specification may fail, when nothing is left of what was specified.  Since the sets only shrink,
some specification of a node fails if and only if nothing is left in the end, and in the end the
order does not matter.

Main statements: `recordAt_comm` says that two operations can be swapped, `info_performAll` and
`types_performAll` what is known after a list of them, `performAll_iff` when none of a list fails,
and `performAll_perm` compares a list with its permutations.
-/

namespace QueryTyping

namespace TypeInfo

/-- The node has one of the given types. -/
def restrict (info : TypeInfo) (types : TypeSet) : TypeInfo :=
  { info with specified := info.specified.inter types }

theorem restrict_comm (info : TypeInfo) (a b : TypeSet) :
    (info.restrict a).restrict b = (info.restrict b).restrict a := by
  have hinter : (info.specified.inter a).inter b = (info.specified.inter b).inter a :=
    inf_right_comm info.specified a b
  simp only [restrict, hinter]

/-- To expect one thing and then another is to expect both. -/
theorem narrow_comm (info : TypeInfo) (a b : TypeSet) :
    (info.narrow a).narrow b = (info.narrow b).narrow a := by
  obtain ⟨specified, expected⟩ := info
  cases expected with
  | none =>
      have hinter : a.inter b = b.inter a := inf_comm a b
      simp only [narrow, hinter]
  | some earlier =>
      have hinter : (earlier.inter a).inter b = (earlier.inter b).inter a :=
        inf_right_comm earlier a b
      simp only [narrow, hinter]

theorem actual_restrict (info : TypeInfo) (types : TypeSet) :
    (info.restrict types).actual = info.actual.inter types := by
  obtain ⟨specified, expected⟩ := info
  cases expected with
  | none => rfl
  | some expected => exact inf_right_comm specified types expected

end TypeInfo

namespace Operation

/-- The operation records types of a node.  A specification gives at least one type. -/
def Records : Operation → Prop
  | specify _ types => types.isEmpty = false
  | expect .. => True
  | declare .. | resolve .. | push | pop => False

instance : DecidablePred Records
  | specify _ types => inferInstanceAs (Decidable (types.isEmpty = false))
  | expect .. => isTrue trivial
  | declare .. | resolve .. | push | pop => isFalse id

/-- The types that an operation gives for a node. -/
def given? (i : NodeId) : Operation → Option TypeSet
  | specify n types => if n.id = i then some types else none
  | expect j possible => if j = i then some possible else none
  | declare .. | resolve .. | push | pop => none

/-- The entry of a node after an operation that records types, from the entry before. -/
def recordAt (i : NodeId) (entry : Option TypeInfo) : Operation → Option TypeInfo
  | specify n types => if n.id = i then some ((TypeInfo.known entry).restrict types) else entry
  | expect j possible => if j = i then some ((TypeInfo.known entry).narrow possible) else entry
  | declare .. | resolve .. | push | pop => entry

variable {i : NodeId} {entry : Option TypeInfo}

/-- **Two operations can be swapped.** -/
theorem recordAt_comm (i : NodeId) (entry : Option TypeInfo) (a b : Operation) :
    recordAt i (recordAt i entry a) b = recordAt i (recordAt i entry b) a := by
  cases a <;> cases b <;> simp only [recordAt]
  case specify.specify n types m types' =>
    by_cases hn : n.id = i <;> by_cases hm : m.id = i <;> simp only [hn, hm, if_true, if_false]
    exact congrArg some (TypeInfo.restrict_comm _ types types')
  case expect.expect j possible k possible' =>
    by_cases hj : j = i <;> by_cases hk : k = i <;> simp only [hj, hk, if_true, if_false]
    exact congrArg some (TypeInfo.narrow_comm _ possible possible')
  -- a specification and an expectation write to different fields
  all_goals
    split <;> split <;> rfl

/-- What a node may be is cut down to the types that are given for it. -/
theorem actual_recordAt (i : NodeId) (entry : Option TypeInfo) (op : Operation) :
    (TypeInfo.known (recordAt i entry op)).actual =
      match op.given? i with
      | some types => (TypeInfo.known entry).actual.inter types
      | none => (TypeInfo.known entry).actual := by
  cases op with
  | specify n types =>
      by_cases hn : n.id = i
      · simp only [recordAt, given?, hn, if_true]
        exact TypeInfo.actual_restrict _ types
      · simp only [recordAt, given?, hn, if_false]
  | expect j possible =>
      by_cases hj : j = i
      · simp only [recordAt, given?, hj, if_true]
        exact TypeInfo.actual_narrow _ possible
      · simp only [recordAt, given?, hj, if_false]
  | _ => rfl

/-- Only a specification of the node changes what is specified about it. -/
theorem specified_recordAt (i : NodeId) (entry : Option TypeInfo) (op : Operation) :
    (TypeInfo.known (recordAt i entry op)).specified = (TypeInfo.known entry).specified ∨
      ∃ n types, op = .specify n types ∧ n.id = i ∧
        (TypeInfo.known (recordAt i entry op)).specified =
          (TypeInfo.known entry).specified.inter types := by
  cases op with
  | specify n types =>
      by_cases hn : n.id = i
      · exact Or.inr ⟨n, types, rfl, hn, by simp only [recordAt, hn, if_true]; rfl⟩
      · exact Or.inl (by simp only [recordAt, hn, if_false])
  | expect j possible =>
      by_cases hj : j = i
      · exact Or.inl (by simp only [recordAt, hj, if_true]; rfl)
      · exact Or.inl (by simp only [recordAt, hj, if_false])
  | _ => exact Or.inl rfl

end Operation

namespace State

open Operation

variable {s t : State} {op : Operation} {ops : List Operation}

/-- Perform operations one after the other, as long as none fails. -/
def performAll (s : State) (ops : List Operation) : Except Problem State := ops.foldlM perform s

/-- What is known about a node after operations that record types. -/
def recorded (s : State) (ops : List Operation) (i : NodeId) : Option TypeInfo :=
  ops.foldl (recordAt i) (s.info? i)

/-- **One operation.**  It writes what it records to the entry of its node. -/
theorem info_perform (hop : op.Records) (h : s.perform op = .ok t) (i : NodeId) :
    t.info? i = recordAt i (s.info? i) op := by
  cases op with
  | specify n types =>
      obtain ⟨info, rfl, hinfo⟩ := specify_cases h
      have hknown : info = (TypeInfo.known (s.info? n.id)).restrict types := by
        have hall : TypeSet.all.inter types = types := top_inf_eq types
        rcases hinfo with ⟨hnone, rfl⟩ | ⟨earlier, hearlier, rfl, -⟩
        · simp [hnone, TypeInfo.known, TypeInfo.restrict, hall]
        · simp [hearlier, TypeInfo.known, TypeInfo.restrict]
      by_cases hi : n.id = i
      · subst hi
        simp [recordAt, info?, next, hknown]
      · have hi' : ¬ i = n.id := fun h => hi h.symm
        simp [recordAt, info?, next, hi, hi']
  | expect j possible =>
      obtain rfl := Except.ok.inj h
      by_cases hi : j = i
      · subst hi
        simp [recordAt, TypeInfo.known]
      · have hi' : ¬ i = j := fun h => hi h.symm
        simp [recordAt, hi, hi']
  | _ => cases hop

/-- A specification fails if nothing is left of what was specified. -/
theorem perform_iff (hop : op.Records) :
    (∃ t, s.perform op = .ok t) ↔ ∀ n types, op = .specify n types →
      ((TypeInfo.known (s.info? n.id)).specified.inter types).isEmpty = false := by
  cases op with
  | specify n types =>
      have hgiven : types.isEmpty = false := hop
      have hall : TypeSet.all.inter types = types := top_inf_eq types
      have hspecify : (∃ t, s.specify n types = .ok t) ↔
          ((TypeInfo.known (s.info? n.id)).specified.inter types).isEmpty = false := by
        unfold State.specify TypeInfo.known
        cases s.info? n.id with
        | none => simp [hall, hgiven]
        | some info => cases h : (info.specified.inter types).isEmpty <;> simp [h]
      constructor
      · rintro hok n types ⟨⟩
        exact hspecify.mp hok
      · exact fun h => hspecify.mpr (h n types rfl)
  | expect j possible => simp [perform]
  | _ => cases hop

/-- **Operations in a row.**  They write what they record to the entries of their nodes. -/
theorem info_performAll (hops : ∀ op ∈ ops, op.Records) (h : s.performAll ops = .ok t)
    (i : NodeId) : t.info? i = s.recorded ops i := by
  induction ops generalizing s with
  | nil =>
      obtain rfl := Except.ok.inj h
      rfl
  | cons op ops ih =>
      rw [performAll, List.foldlM_cons] at h
      cases hop : s.perform op with
      | error p => rw [hop] at h; cases h
      | ok middle =>
          rw [hop] at h
          have hrest := ih (fun op hop => hops op (List.mem_cons_of_mem _ hop)) h
          rw [hrest, recorded, info_perform (hops op List.mem_cons_self) hop]
          rfl

/-- What a node may be after operations in a row: all types that are given for it take part. -/
theorem types_performAll (hops : ∀ op ∈ ops, op.Records) (h : s.performAll ops = .ok t)
    (i : NodeId) : t.types i = (ops.filterMap (given? i)).foldl TypeSet.inter (s.types i) := by
  have hactual : ∀ (ops : List Operation) (entry : Option TypeInfo),
      (TypeInfo.known (ops.foldl (recordAt i) entry)).actual =
        (ops.filterMap (given? i)).foldl TypeSet.inter (TypeInfo.known entry).actual := by
    intro ops
    induction ops with
    | nil => exact fun entry => rfl
    | cons op ops ih =>
        intro entry
        rw [List.foldl_cons, ih, actual_recordAt, List.filterMap_cons]
        cases op.given? i <;> rfl
  rw [types_eq_known, types_eq_known, info_performAll hops h i]
  exact hactual ops (s.info? i)

/-- One more operation at the end. -/
theorem performAll_concat (s : State) (ops : List Operation) (op : Operation) :
    s.performAll (ops ++ [op]) = s.performAll ops >>= fun middle => middle.perform op := by
  simp [performAll]

theorem recorded_concat (s : State) (ops : List Operation) (op : Operation) (i : NodeId) :
    s.recorded (ops ++ [op]) i = recordAt i (s.recorded ops i) op := by
  simp [recorded]

/-- What is specified about a node in the end is something only if it was all the time. -/
theorem specified_of_concat {i : NodeId}
    (h : (TypeInfo.known (s.recorded (ops ++ [op]) i)).specified.isEmpty = false) :
    (TypeInfo.known (s.recorded ops i)).specified.isEmpty = false := by
  rw [recorded_concat] at h
  rcases specified_recordAt i (s.recorded ops i) op with hsame | ⟨n, types, -, -, hinter⟩
  · rwa [hsame] at h
  · rw [hinter, TypeSet.isEmpty_eq_false_iff] at h
    obtain ⟨t, ht⟩ := h
    exact TypeSet.isEmpty_eq_false_iff.mpr ⟨t, (TypeSet.mem_inter.mp ht).1⟩

/-- **When nothing fails.**  Something is left in the end of what is specified about each node. -/
theorem performAll_iff (hops : ∀ op ∈ ops, op.Records) :
    (∃ t, s.performAll ops = .ok t) ↔ ∀ n types, .specify n types ∈ ops →
      (TypeInfo.known (s.recorded ops n.id)).specified.isEmpty = false := by
  induction ops using List.reverseRecOn with
  | nil => simp [performAll, pure, Except.pure]
  | append_singleton ops op ih =>
      have hbefore : ∀ op ∈ ops, op.Records := fun op hop => hops op (List.mem_append_left _ hop)
      have hop : op.Records := hops op (by simp)
      rw [performAll_concat]
      constructor
      · rintro ⟨t, ht⟩ n types hmem
        cases hmiddle : s.performAll ops with
        | error p => rw [hmiddle] at ht; cases ht
        | ok middle =>
            rw [hmiddle] at ht
            have hleft := (perform_iff hop).mp ⟨t, ht⟩
            rw [recorded_concat]
            rcases specified_recordAt n.id (s.recorded ops n.id) op with
              hsame | ⟨m, given, rfl, hm, hinter⟩
            · rcases List.mem_append.mp hmem with hmem | hmem
              · rw [hsame]
                exact (ih hbefore).mp ⟨middle, hmiddle⟩ n types hmem
              · obtain rfl : Operation.specify n types = op := List.mem_singleton.mp hmem
                have hlast := hleft n types rfl
                rw [info_performAll hbefore hmiddle] at hlast
                simpa [recordAt, TypeInfo.known, TypeInfo.restrict] using hlast
            · rw [hinter, ← info_performAll hbefore hmiddle, ← hm]
              exact hleft m given rfl
      · intro h
        obtain ⟨middle, hmiddle⟩ := (ih hbefore).mpr fun n types hmem =>
          specified_of_concat (h n types (List.mem_append_left _ hmem))
        obtain ⟨t, ht⟩ := (perform_iff (s := middle) hop).mpr fun n types hspecify => by
          have hlast := h n types (by simp [hspecify])
          rw [recorded_concat, hspecify, ← info_performAll hbefore hmiddle] at hlast
          simpa [recordAt, TypeInfo.known, TypeInfo.restrict] using hlast
        exact ⟨t, by rw [hmiddle]; exact ht⟩

/-- What is known in the end does not depend on the order. -/
theorem recorded_perm {ops' : List Operation} (hperm : ops.Perm ops') (s : State) (i : NodeId) :
    s.recorded ops' i = s.recorded ops i :=
  (hperm.foldl_eq' (fun a _ b _ entry => recordAt_comm i entry a b) _).symm

/-- **The order does not matter.**  If no operation of a list fails that records types, then none
fails in any other order, and the same is known about each node in the end: it may be of its types
before, as far as they are in all sets that were given for it. -/
theorem performAll_perm (hops : ∀ op ∈ ops, op.Records) (hrun : s.performAll ops = .ok t) :
    (∀ ops', ops.Perm ops' → ∃ t', s.performAll ops' = .ok t' ∧ ∀ i, t'.info? i = t.info? i) ∧
      ∀ i, t.types i = (ops.filterMap (given? i)).foldl TypeSet.inter (s.types i) := by
  refine ⟨fun ops' hperm => ?_, types_performAll hops hrun⟩
  have hops' : ∀ op ∈ ops', op.Records := fun op hop => hops op (hperm.mem_iff.mpr hop)
  have hleft := (performAll_iff hops).mp ⟨t, hrun⟩
  obtain ⟨t', hrun'⟩ := (performAll_iff (s := s) hops').mpr fun n types hmem => by
    rw [recorded_perm hperm]
    exact hleft n types (hperm.mem_iff.mpr hmem)
  refine ⟨t', hrun', fun i => ?_⟩
  rw [info_performAll hops' hrun', info_performAll hops hrun, recorded_perm hperm]

/-- A node that is expected before and after it is specified twice, and another one in between. -/
theorem performAll_perm_numbers :
    let s := State.initial.expect 1 ((TypeSet.covariant .number).union (.exact .string))
    let n : Node := ⟨1, .unknown⟩
    let ops : List Operation :=
      [.expect 1 ((TypeSet.exact .integer).union (.exact .string)), .specify n (.covariant .number),
        .expect 2 .empty, .specify n ((TypeSet.exact .integer).union (.exact .boolean)),
        .specify ⟨2, .unknown⟩ (.exact .float)]
    (∀ op ∈ ops, op.Records) ∧
      ∃ t, s.performAll ops = .ok t ∧ t.types 1 = .exact .integer ∧ t.types 2 = .empty ∧
        ∃ t', s.performAll ops.reverse = .ok t' ∧ ∀ i, t'.info? i = t.info? i := by
  intro s n ops
  have hops : ∀ op ∈ ops, op.Records := by decide
  have hok : (s.performAll ops).isOk = true := by decide
  cases hrun : s.performAll ops with
  | error p => rw [hrun] at hok; cases hok
  | ok t =>
      obtain ⟨hperm, htypes⟩ := performAll_perm hops hrun
      refine ⟨hops, t, rfl, ?_, ?_, hperm ops.reverse (List.reverse_perm ops).symm⟩
      · exact (htypes 1).trans (by decide)
      · exact (htypes 2).trans (by decide)

end State
end QueryTyping
