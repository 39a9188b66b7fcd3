import Mathlib.Data.List.Forall2
import Mathlib.Data.Nat.Find
import QueryTyping.Proofs.Check.Frame
import QueryTyping.Proofs.TypeSet.Lattice

/-!
# What overloads come to

Signatures are narrowed argument by argument, each argument is narrowed on the way by what the
remaining signatures accept, and the narrowing stops when none remains.  All of this comes to a test
of each signature alone, against what the arguments were known to be before: as long as a signature
remains, what it accepts is among what is expected of the next argument, so the expectation takes
nothing away that the signature could be refused for.

The same argument run backwards says when something is reported.  An argument is left without types
exactly if no remaining signature accepts any of them, and then none remains: so there is at most
one report, and nothing is looked at after it.

Main statements: `alive_narrow` is the test of each signature, `problems_narrow_of_refused` and
`types_narrow` say what is reported and what becomes of the arguments, `types_invoke` what the types
of an invocation are, and `invoke_mismatch` which argument is blamed.
-/

namespace QueryTyping

namespace TypeSet

variable {a b t : TypeSet} {bs : List TypeSet}

/-- What is in a union of sets is in one of them. -/
theorem mem_unions {t : Ty} : t ∈ unions bs ↔ ∃ b ∈ bs, t ∈ b := by
  have key : ∀ (bs : List TypeSet) (a : TypeSet),
      t ∈ bs.foldl union a ↔ t ∈ a ∨ ∃ b ∈ bs, t ∈ b := by
    intro bs
    induction bs with
    | nil => simp
    | cons b bs ih => intro a; rw [List.foldl_cons, ih, mem_union]; simp [or_assoc]
  have hempty : t ∉ empty := isEmpty_iff.mp rfl t
  rw [unions, key]
  simp [hempty]

/-- **Nothing is lost.**  What a set has in common with one of several sets is still there when the
set is narrowed to their union. -/
theorem meets_inter_unions (hb : b ∈ bs) : (a.inter (unions bs)).meets b = a.meets b := by
  rw [Bool.eq_iff_iff]
  simp only [meets_iff, mem_inter, mem_unions]
  constructor
  · rintro ⟨t, ⟨ht, -⟩, htb⟩
    exact ⟨t, ht, htb⟩
  · rintro ⟨t, ht, htb⟩
    exact ⟨t, ⟨ht, b, hb, htb⟩, htb⟩

end TypeSet

theorem TypeInfo.actual_narrow (info : TypeInfo) (possible : TypeSet) :
    (info.narrow possible).actual = info.actual.inter possible := by
  obtain ⟨specified, expected⟩ := info
  cases expected with
  | none => rfl
  | some earlier => exact (inf_assoc specified earlier possible).symm

namespace Signature

/-- There is a parameter for each of these types, and it accepts something of them. -/
def Fits (g : Signature) (types : List TypeSet) : Prop :=
  List.Forall₂ (fun ty p => ty.meets (.covariant p) = true) types g.parameters

instance (g : Signature) (types : List TypeSet) : Decidable (g.Fits types) :=
  inferInstanceAs (Decidable (List.Forall₂ (fun ty p => ty.meets (.covariant p) = true) types
    g.parameters))

/-- The signature with only its first parameters. -/
def first (g : Signature) (k : Nat) : Signature := { g with parameters := g.parameters.take k }

/-- The signature without its first parameters. -/
def drop (g : Signature) (k : Nat) : Signature := { g with parameters := g.parameters.drop k }

/-- What the parameter at a position accepts. -/
def acceptedAt (g : Signature) (k : Nat) : TypeSet :=
  match g.parameters[k]? with
  | some t => .covariant t
  | none => .empty

variable {g : Signature}

theorem accepted_drop (g : Signature) (k : Nat) : (g.drop k).accepted = g.acceptedAt k := by
  rw [accepted, acceptedAt, drop, ← List.head?_drop]
  cases g.parameters.drop k <;> rfl

theorem drop_rest (g : Signature) (k : Nat) : g.rest.drop k = g.drop (k + 1) := by
  simp [drop, rest]

/-- The first parameter by itself, and then the others. -/
theorem fits_first_cons {ty : TypeSet} {types : List TypeSet} {k : Nat} :
    (g.first (k + 1)).Fits (ty :: types) ↔
      ty.meets g.accepted = true ∧ (g.rest.first k).Fits types := by
  obtain ⟨parameters, output⟩ := g
  cases parameters with
  | nil =>
      have hnone : ty.meets .empty = false := by
        rw [← Bool.not_eq_true, TypeSet.meets_iff]
        rintro ⟨t, -, ht⟩
        exact TypeSet.isEmpty_iff.mp rfl t ht
      simp [Fits, first, accepted, hnone]
  | cons p ps => simp [Fits, first, accepted, rest]

/-- A signature fits if it has the right number of parameters and all of them do. -/
theorem fits_iff {types : List TypeSet} :
    g.Fits types ↔ g.arity = types.length ∧ (g.first types.length).Fits types := by
  constructor
  · intro h
    have hlength : types.length = g.arity := h.length_eq
    refine ⟨hlength.symm, ?_⟩
    rwa [first, hlength, arity, List.take_length]
  · rintro ⟨harity, h⟩
    rwa [first, ← harity, arity, List.take_length] at h

end Signature

namespace State

variable {s : State} {n : Node} {i : NodeId} {args ns ms : List Node} {alive : List Signature}

/-- The actual types of some nodes. -/
def typesOf (s : State) (ns : List Node) : List TypeSet := ns.map fun n => s.types n.id

/-- The arguments before a position, the one there and those after it. -/
theorem take_cons_drop {k : Nat} (hk : k < args.length) :
    args.take k ++ args[k] :: args.drop (k + 1) = args := by
  rw [List.getElem_cons_drop, List.take_append_drop]

/-- Among nodes with distinct ids, one is apart from those before it and those after it. -/
theorem apart_of_nodup {arg : Node} {later : List Node}
    (h : ((ns ++ arg :: later).map Node.id).Nodup) :
    (∀ n ∈ ns, arg.id ≠ n.id) ∧ ∀ n ∈ later, arg.id ≠ n.id := by
  rw [List.map_append, List.map_cons, List.nodup_append, List.nodup_cons] at h
  obtain ⟨-, ⟨hlater, -⟩, hbefore⟩ := h
  constructor
  · intro n hn heq
    exact hbefore n.id (List.mem_map_of_mem hn) arg.id List.mem_cons_self heq.symm
  · intro n hn heq
    exact hlater (heq ▸ List.mem_map_of_mem hn)

/-- An expectation takes away what the place does not accept. -/
theorem types_expect (s : State) (i : NodeId) (possible : TypeSet) :
    (s.expect i possible).types i = (s.types i).inter possible := by
  rw [types_eq_known, types_eq_known, info_expect, if_pos rfl]
  exact TypeInfo.actual_narrow _ possible

/-- What other nodes are is not changed by an expectation. -/
theorem typesOf_expect (h : ∀ n ∈ ns, i ≠ n.id) (possible : TypeSet) :
    (s.expect i possible).typesOf ns = s.typesOf ns := by
  refine List.map_congr_left fun n hn => types_congr ?_
  rw [info_expect, if_neg (h n hn).symm]

/-- **One argument.**  A signature is kept if it accepts something of what the argument was before:
what the others accept does not matter. -/
theorem meets_after_expect {g : Signature} (hg : g ∈ alive) (s : State) (i : NodeId) :
    ((s.expect i (.unions (alive.map Signature.accepted))).types i).meets g.accepted =
      (s.types i).meets g.accepted := by
  rw [types_expect]
  exact TypeSet.meets_inter_unions (List.mem_map_of_mem hg)

/-- **The test of each signature alone.**  Those that remain have parameters that accept something
of what each argument was before. -/
theorem alive_narrow (hnodup : (ns.map Node.id).Nodup) (alive : List Signature) (s : State) :
    (narrow ns alive s).2 =
      (alive.filter fun g => (g.first ns.length).Fits (s.typesOf ns)).map (·.drop ns.length) := by
  induction ns generalizing alive s with
  | nil =>
      have hall : ∀ g ∈ alive, decide ((g.first 0).Fits []) = true := by
        intro g _
        simp [Signature.Fits, Signature.first]
      have hdrop : ∀ g ∈ alive, g.drop 0 = g := fun _ _ => rfl
      change alive = (alive.filter fun g => decide ((g.first 0).Fits [])).map (·.drop 0)
      rw [List.filter_eq_self.mpr hall, List.map_congr_left hdrop, List.map_id']
  | cons n ns ih =>
      cases alive with
      | nil => rfl
      | cons g gs =>
          obtain ⟨-, hothers⟩ := apart_of_nodup (List.nil_append (n :: ns) ▸ hnodup)
          have hrest : (ns.map Node.id).Nodup := (List.nodup_cons.mp hnodup).2
          simp only [narrow, state_expectTypes]
          rw [ih hrest, typesOf_expect hothers, List.filter_map, List.map_map, List.filter_filter]
          have hdrop : ((·.drop ns.length) ∘ Signature.rest) =
              fun g : Signature => g.drop (n :: ns).length := by
            funext g
            exact g.drop_rest ns.length
          rw [hdrop]
          congr 1
          refine List.filter_congr fun h hh => ?_
          rw [meets_after_expect hh, Function.comp_apply, Bool.and_comm, Bool.eq_iff_iff]
          simp only [Bool.and_eq_true, decide_eq_true_eq]
          exact Signature.fits_first_cons.symm

/-- **Arguments in two parts.**  The second part is narrowed by what the first one has left. -/
theorem narrow_append (ms ns : List Node) (alive : List Signature) (s : State) :
    narrow (ms ++ ns) alive s =
      let before := narrow ms alive s
      let after := narrow ns before.2 before.1.state
      (⟨after.1.state, before.1.problems ++ after.1.problems⟩, after.2) := by
  induction ms generalizing alive s with
  | nil => rfl
  | cons m ms ih =>
      cases alive with
      | nil => simp [narrow, narrow_nil]
      | cons g gs =>
          simp only [List.cons_append, narrow]
          rw [ih]
          simp [List.append_assoc]

/-! One argument among the others -/

/-- What is known about other nodes is not changed by the arguments before. -/
theorem types_narrow_frame (hi : ∀ n ∈ ns, i ≠ n.id) (alive : List Signature) (s : State) :
    (narrow ns alive s).1.state.types i = s.types i :=
  types_congr (info_narrow_frame hi alive s)

/-- An argument is looked at as long as a signature remains. -/
theorem narrow_cons_of_alive (h : alive ≠ []) (n : Node) (ns : List Node) (s : State) :
    narrow (n :: ns) alive s =
      let o := s.expectTypes n (.unions (alive.map Signature.accepted)) .mismatch
      let left := (alive.filter fun g => (o.state.types n.id).meets g.accepted).map Signature.rest
      let after := narrow ns left o.state
      (⟨after.1.state, o.problems ++ after.1.problems⟩, after.2) := by
  cases alive with
  | nil => exact absurd rfl h
  | cons g gs => rfl

/-- **A signature that remains speaks for all arguments.**  Nothing is reported while one does. -/
theorem problems_narrow_of_alive (h : (narrow ns alive s).2 ≠ []) :
    (narrow ns alive s).1.problems = [] := by
  induction ns generalizing alive s with
  | nil => rfl
  | cons n ns ih =>
      have halive : alive ≠ [] := by
        rintro rfl
        exact h (congrArg Prod.snd (narrow_nil (n :: ns) s))
      rw [narrow_cons_of_alive halive] at h ⊢
      dsimp only at h ⊢
      rw [ih h, List.append_nil, expectTypes_problems, TypeSet.isEmpty_eq_false_iff]
      -- a signature that is left has a type in common with what the argument is then
      have hleft : (alive.filter fun g => ((s.expectTypes n
          (.unions (alive.map Signature.accepted)) .mismatch).state.types n.id).meets
            g.accepted).map Signature.rest ≠ [] := by
        intro hnil
        rw [hnil, narrow_nil] at h
        exact h rfl
      obtain ⟨_, hmem⟩ := List.exists_mem_of_ne_nil _ hleft
      obtain ⟨g, hg, -⟩ := List.mem_map.mp hmem
      obtain ⟨t, ht, -⟩ := TypeSet.meets_iff.mp (List.mem_filter.mp hg).2
      rw [state_expectTypes] at ht
      exact ⟨t, ht⟩

/-- **The argument that no signature accepts.**  It is reported with what the signatures before it
accept and with what it was, and after it nothing is. -/
theorem problems_narrow_of_refused {arg : Node} {later : List Node}
    (hnodup : ((ns ++ arg :: later).map Node.id).Nodup)
    (hbefore : (narrow ns alive s).2 ≠ [])
    (hrefused : (narrow (ns ++ [arg]) alive s).2 = []) :
    (narrow (ns ++ arg :: later) alive s).1.problems =
      [⟨.mismatch (.unions ((narrow ns alive s).2.map Signature.accepted)) (s.types arg.id),
        arg.span⟩] := by
  obtain ⟨hapart, -⟩ := apart_of_nodup hnodup
  rw [narrow_append] at hrefused ⊢
  dsimp only at hrefused ⊢
  have htypes := types_narrow_frame hapart alive s
  have hnone := problems_narrow_of_alive hbefore
  generalize narrow ns alive s = before at *
  rw [narrow_cons_of_alive hbefore] at hrefused ⊢
  dsimp only [narrow] at hrefused ⊢
  rw [hrefused, narrow_nil, hnone, List.nil_append, List.append_nil]
  have hempty : ((before.1.state.expect arg.id
      (.unions (before.2.map Signature.accepted))).types arg.id).isEmpty = true := by
    rw [List.map_eq_nil_iff, List.filter_eq_nil_iff] at hrefused
    rw [← Bool.not_eq_false, TypeSet.isEmpty_eq_false_iff]
    rintro ⟨t, ht⟩
    have hallowed := ht
    rw [types_expect, TypeSet.mem_inter, TypeSet.mem_unions] at hallowed
    obtain ⟨-, b, hb, htb⟩ := hallowed
    obtain ⟨g, hg, rfl⟩ := List.mem_map.mp hb
    refine hrefused g hg (TypeSet.meets_iff.mpr ⟨t, ?_, htb⟩)
    rwa [state_expectTypes]
  rw [expectTypes, if_pos hempty, htypes]

/-- **What becomes of an argument.**  It keeps what the signatures before it accept.  If there is
none, nothing is learned about it. -/
theorem types_narrow {arg : Node} {later : List Node}
    (hnodup : ((ns ++ arg :: later).map Node.id).Nodup) (alive : List Signature) (s : State) :
    let left := (narrow ns alive s).2
    let after := (narrow (ns ++ arg :: later) alive s).1.state
    (left ≠ [] → after.types arg.id =
        (s.types arg.id).inter (.unions (left.map Signature.accepted))) ∧
      (left = [] → after.info? arg.id = s.info? arg.id) := by
  intro left after
  obtain ⟨hapart, hothers⟩ := apart_of_nodup hnodup
  have hafter : after = (narrow (arg :: later) left (narrow ns alive s).1.state).1.state := by
    simp only [after, left, narrow_append]
  rw [hafter]
  constructor
  · intro hleft
    rw [narrow_cons_of_alive hleft]
    dsimp only
    rw [types_narrow_frame hothers, state_expectTypes, types_expect, types_narrow_frame hapart]
  · intro hleft
    rw [hleft, narrow_nil]
    exact info_narrow_frame hapart alive s

/-! The signatures that are left before each position -/

/-- Of the signatures with the right number of parameters, those whose first `k` parameters accept
something of what the arguments are. -/
def candidates (s : State) (args : List Node) (signatures : List Signature) (k : Nat) :
    List Signature :=
  (signatures.filter (·.arity == args.length)).filter
    fun g => (g.first k).Fits (s.typesOf (args.take k))

/-- What the candidates accept together at their position. -/
def allowed (s : State) (args : List Node) (signatures : List Signature) (k : Nat) : TypeSet :=
  .unions ((s.candidates args signatures k).map (·.acceptedAt k))

/-- The candidates at the start are the signatures with the right number of parameters. -/
theorem candidates_zero (s : State) (args : List Node) (signatures : List Signature) :
    s.candidates args signatures 0 = signatures.filter (·.arity == args.length) := by
  refine List.filter_eq_self.mpr fun g _ => ?_
  simp [Signature.Fits, Signature.first, typesOf]

/-- The candidates at the end are the signatures that fit. -/
theorem candidates_length (s : State) (args : List Node) (signatures : List Signature) :
    s.candidates args signatures args.length =
      signatures.filter fun g => g.Fits (s.typesOf args) := by
  rw [candidates, List.take_length, List.filter_filter]
  refine List.filter_congr fun g _ => ?_
  have hlength : (s.typesOf args).length = args.length := List.length_map _
  rw [Bool.and_comm, Bool.eq_iff_iff, Bool.and_eq_true, beq_iff_eq, decide_eq_true_eq,
    decide_eq_true_eq, (Signature.fits_iff : g.Fits (s.typesOf args) ↔ _), hlength]

/-- The candidates at a position are those that the arguments before it leave. -/
theorem alive_take {k : Nat} (hnodup : (args.map Node.id).Nodup) (hk : k ≤ args.length) (s : State)
    (signatures : List Signature) :
    (narrow (args.take k) (signatures.filter (·.arity == args.length)) s).2 =
      (s.candidates args signatures k).map (·.drop k) := by
  have htake : ((args.take k).map Node.id).Nodup :=
    hnodup.sublist ((List.take_sublist k args).map Node.id)
  rw [alive_narrow htake, List.length_take_of_le hk, candidates]

theorem accepted_take {signatures : List Signature} {k : Nat} :
    .unions (((s.candidates args signatures k).map (·.drop k)).map Signature.accepted) =
      s.allowed args signatures k := by
  rw [allowed, List.map_map]
  congr 2
  funext g
  exact g.accepted_drop k

/-- A specification fails only because types conflict. -/
theorem code_specify {types : TypeSet} {p : Problem} (h : s.specify n types = .error p) :
    p.code = Code.conflictingTypes.text := by
  unfold specify at h
  split at h
  · dsimp only at h
    split at h
    · cases h
      rfl
    · cases h
  · cases h

/-- What an invocation reports about types that do not fit is what narrowing reports. -/
theorem mismatches_invoke (s : State) (n : Node) (args : List Node) (signatures : List Signature) :
    (s.invoke n args signatures).problems.filter (·.code == Code.typeMismatch.text) =
      (narrow args (signatures.filter (·.arity == args.length)) s).1.problems.filter
        (·.code == Code.typeMismatch.text) := by
  have hlast : ∀ (t : State) (types : TypeSet),
      (Outcome.ofExcept t (t.specify n types)).problems.filter
        (·.code == Code.typeMismatch.text) = [] := by
    intro t types
    cases h : t.specify n types with
    | ok u => rfl
    | error p =>
        have hcode := code_specify h
        have hne : (Code.conflictingTypes.text == Code.typeMismatch.text) = false := by decide
        simp [Outcome.ofExcept, hcode, hne]
  simp only [invoke, Outcome.andThen, List.filter_append, hlast, List.append_nil]

/-- An invocation specifies itself.  What else is known comes from narrowing. -/
theorem info_invoke_frame (hi : i ≠ n.id) (s : State) (args : List Node)
    (signatures : List Signature) :
    (s.invoke n args signatures).state.info? i =
      (narrow args (signatures.filter (·.arity == args.length)) s).1.state.info? i := by
  obtain ⟨middle, alive, hnarrow, hlast | hlast⟩ := Check.invoke_cases s n args signatures
  · rw [hnarrow, hlast]
  · rw [hnarrow, info_specify_frame hlast hi]

/-- **What becomes of each argument of an invocation.** -/
theorem types_argument {k : Nat} (hk : k < args.length) (hnodup : (args.map Node.id).Nodup)
    (hn : ∀ a ∈ args, a.id ≠ n.id) (s : State) (signatures : List Signature) :
    let after := (s.invoke n args signatures).state
    (s.candidates args signatures k ≠ [] → after.types args[k].id =
        (s.types args[k].id).inter (s.allowed args signatures k)) ∧
      (s.candidates args signatures k = [] → after.info? args[k].id = s.info? args[k].id) := by
  intro after
  have hsplit := take_cons_drop hk
  have hinfo : after.info? args[k].id =
      (narrow args (signatures.filter (·.arity == args.length)) s).1.state.info? args[k].id :=
    info_invoke_frame (hn _ (List.getElem_mem hk)) s args signatures
  have hparts : ((args.take k ++ args[k] :: args.drop (k + 1)).map Node.id).Nodup := by
    rwa [hsplit]
  have hargs := types_narrow hparts (signatures.filter (·.arity == args.length)) s
  dsimp only at hargs
  rw [hsplit, alive_take hnodup (Nat.le_of_lt hk), accepted_take, ne_eq,
    List.map_eq_nil_iff] at hargs
  rw [types_congr hinfo, hinfo]
  exact hargs

/-- **What is reported.**  Nothing if some signature fits, and nothing if none has the right number
of parameters; if none is left after an argument, then that one. -/
theorem reports_invoke (hnodup : (args.map Node.id).Nodup) (s : State) (n : Node)
    (signatures : List Signature) :
    let reports := (s.invoke n args signatures).problems.filter
      (·.code == Code.typeMismatch.text)
    (s.candidates args signatures 0 = [] → reports = []) ∧
      (s.candidates args signatures args.length ≠ [] → reports = []) ∧
      ∀ k (hk : k < args.length), s.candidates args signatures k ≠ [] →
        s.candidates args signatures (k + 1) = [] →
        reports = [⟨.mismatch (s.allowed args signatures k) (s.types args[k].id),
          args[k].span⟩] := by
  intro reports
  have hreports : reports = _ := mismatches_invoke s n args signatures
  rw [hreports]
  refine ⟨fun hnone => ?_, fun hfits => ?_, fun k hk halive hrefused => ?_⟩
  · rw [← candidates_zero s, hnone, narrow_nil]
    rfl
  · have hend := alive_take hnodup (Nat.le_refl _) s signatures
    rw [List.take_length] at hend
    rw [problems_narrow_of_alive (by rwa [hend, ne_eq, List.map_eq_nil_iff])]
    rfl
  · have hsplit := take_cons_drop hk
    have hbefore := alive_take hnodup (Nat.le_of_lt hk) s signatures
    have hafter := alive_take hnodup hk s signatures
    rw [hrefused, ← List.take_append_getElem hk] at hafter
    have hparts : ((args.take k ++ args[k] :: args.drop (k + 1)).map Node.id).Nodup := by
      rwa [hsplit]
    have hproblems := problems_narrow_of_refused hparts
      (by rwa [hbefore, ne_eq, List.map_eq_nil_iff]) hafter
    rw [hsplit, hbefore, accepted_take] at hproblems
    rw [hproblems]
    rfl

/-- The candidates at a later position are among those at an earlier one. -/
theorem candidates_subset {k l : Nat} (hkl : k ≤ l) (s : State) (args : List Node)
    (signatures : List Signature) :
    s.candidates args signatures l ⊆ s.candidates args signatures k := by
  intro g hg
  obtain ⟨hgs, hfits⟩ := List.mem_filter.mp hg
  refine List.mem_filter.mpr ⟨hgs, decide_eq_true ?_⟩
  have htake := List.forall₂_take k (of_decide_eq_true hfits)
  simp only [Signature.first, typesOf, List.map_take, List.take_take, Nat.min_eq_left hkl] at htake
  rw [Signature.Fits, typesOf, List.map_take]
  exact htake

/-- **Overloads in closed form.**  The types of an invocation nothing is known about are the outputs
of just those signatures that fit what the arguments were before, whatever is narrowed on the way;
if there is none, it may be anything. -/
theorem types_invoke {s : State} {n : Node} {args : List Node} (signatures : List Signature)
    (hunknown : s.info? n.id = none) (hnodup : (args.map Node.id).Nodup)
    (hn : ∀ a ∈ args, a.id ≠ n.id) :
    let fitting := signatures.filter fun g => g.Fits (s.typesOf args)
    let types := (s.invoke n args signatures).state.types n.id
    types = (if fitting = [] then .all else .unions (fitting.map Signature.output)) ∧
      ∀ t, t ∈ types ↔ fitting = [] ∨ ∃ g ∈ fitting, t ∈ g.output := by
  intro fitting types
  let narrowed := narrow args (signatures.filter (·.arity == args.length)) s
  have halive : narrowed.2 = fitting.map (·.drop args.length) := by
    have hend := alive_take hnodup (Nat.le_refl _) s signatures
    rwa [List.take_length, candidates_length] at hend
  have hunknown' : narrowed.1.state.info? n.id = none :=
    (info_narrow_frame (fun a ha heq => hn a ha heq.symm) _ s).trans hunknown
  have hinvoke : (s.invoke n args signatures).state =
      { narrowed.1.state with
        infos := narrowed.1.state.infos.set n.id ⟨outputs narrowed.2, none⟩ }.next := by
    rw [invoke]
    simp only [Outcome.andThen]
    rw [specify_of_unknown hunknown']
    rfl
  have houtputs : types = outputs narrowed.2 := by
    simp [types, State.types, hinvoke, info?, next, TypeInfo.actual]
  have hclosed : types =
      if fitting = [] then .all else .unions (fitting.map Signature.output) := by
    simp only [houtputs, outputs, halive, List.isEmpty_map, List.map_map, List.isEmpty_iff]
    rfl
  refine ⟨hclosed, fun t => ?_⟩
  rw [hclosed]
  split
  · rename_i hnone
    exact ⟨fun _ => Or.inl hnone, fun _ => TypeSet.mem_all⟩
  · rename_i hsome
    simp [TypeSet.mem_unions, hsome]

/-- An argument that is an integer or a string, and one nothing is known about: two of the
signatures fit, though the second argument is narrowed before it is looked at. -/
theorem types_invoke_number_or_string :
    let s := State.initial.expect 1 ((TypeSet.exact .integer).union (.exact .string))
    let n : Node := ⟨3, .unknown⟩
    let args : List Node := [⟨1, .unknown⟩, ⟨2, .unknown⟩]
    let signatures : List Signature :=
      [⟨[.number, .integer], .exact .float⟩, ⟨[.string, .number], .exact .string⟩,
        ⟨[.boolean, .string], .exact .boolean⟩, ⟨[.number], .exact .integer⟩]
    s.info? n.id = none ∧ (args.map Node.id).Nodup ∧ (∀ a ∈ args, a.id ≠ n.id) ∧
      (s.invoke n args signatures).state.types n.id =
        .unions [TypeSet.exact .float, .exact .string] := by
  intro s n args signatures
  have hunknown : s.info? n.id = none := by decide
  have hnodup : (args.map Node.id).Nodup := by decide
  have hn : ∀ a ∈ args, a.id ≠ n.id := by decide
  obtain ⟨hclosed, -⟩ := types_invoke signatures hunknown hnodup hn
  have hfitting : signatures.filter (fun g => g.Fits (s.typesOf args)) = signatures.take 2 := by
    decide
  rw [hfitting] at hclosed
  exact ⟨hunknown, hnodup, hn, hclosed⟩

/-- **At most one argument is blamed.**  If no signature has the right number of parameters, nothing
is reported and nothing is learned about the arguments.  If one fits, nothing is reported and each
argument keeps what the candidates at its position accept.  Otherwise one argument is reported: the
first one after which no candidate is left.  Up to it the arguments are narrowed in the same way,
and nothing is learned about those after it. -/
theorem invoke_mismatch {s : State} {n : Node} {args : List Node} (signatures : List Signature)
    (hnodup : (args.map Node.id).Nodup) (hn : ∀ a ∈ args, a.id ≠ n.id) :
    let after := (s.invoke n args signatures).state
    let reports := (s.invoke n args signatures).problems.filter
      (·.code == Code.typeMismatch.text)
    let matching := signatures.filter (·.arity == args.length)
    let fitting := signatures.filter fun g => g.Fits (s.typesOf args)
    let left := s.candidates args signatures
    let narrowed (k : Nat) (hk : k < args.length) : Prop :=
      after.types args[k].id = (s.types args[k].id).inter (s.allowed args signatures k)
    (matching = [] → reports = [] ∧ ∀ a ∈ args, after.info? a.id = s.info? a.id) ∧
      (fitting ≠ [] → reports = [] ∧ ∀ k (hk : k < args.length), narrowed k hk) ∧
      (matching ≠ [] → fitting = [] →
        ∃ k, ∃ hk : k < args.length, (∀ j ≤ k, left j ≠ []) ∧ left (k + 1) = [] ∧
          reports = [⟨.mismatch (s.allowed args signatures k) (s.types args[k].id),
            args[k].span⟩] ∧
          (∀ j (hj : j ≤ k), narrowed j (Nat.lt_of_le_of_lt hj hk)) ∧
          ∀ j (hj : j < args.length), k < j → after.info? args[j].id = s.info? args[j].id) := by
  intro after reports matching fitting left narrowed
  obtain ⟨hstart, hend, hblamed⟩ := reports_invoke hnodup s n signatures
  have hmatching : left 0 = matching := candidates_zero s args signatures
  have hfitting : left args.length = fitting := candidates_length s args signatures
  rw [← hmatching, ← hfitting]
  have hargument : ∀ k (hk : k < args.length),
      (left k ≠ [] → narrowed k hk) ∧
        (left k = [] → after.info? args[k].id = s.info? args[k].id) :=
    fun k hk => types_argument hk hnodup hn s signatures
  have hempty : ∀ {k l}, k ≤ l → left k = [] → left l = [] := by
    intro k l hkl hk
    exact List.eq_nil_of_subset_nil (hk ▸ candidates_subset hkl s args signatures)
  refine ⟨fun hnone => ⟨hstart hnone, fun a ha => ?_⟩, fun hfits => ⟨hend hfits, fun k hk => ?_⟩,
    fun hsome hnone => ?_⟩
  · obtain ⟨k, hk, rfl⟩ := List.getElem_of_mem ha
    exact (hargument k hk).2 (hempty (Nat.zero_le k) hnone)
  · refine (hargument k hk).1 fun hk' => hfits ?_
    exact hempty (Nat.le_of_lt hk) hk'
  · -- the first position before which nothing is left is behind some argument
    have hexists : ∃ k, left k = [] := ⟨args.length, hnone⟩
    obtain ⟨k, hk⟩ : ∃ k, Nat.find hexists = k + 1 := by
      refine Nat.exists_eq_succ_of_ne_zero fun hzero => hsome ?_
      rw [← hzero]
      exact Nat.find_spec hexists
    have hrefused : left (k + 1) = [] := hk ▸ Nat.find_spec hexists
    have halive : ∀ j ≤ k, left j ≠ [] := fun j hj => Nat.find_min hexists (by omega)
    have hlt : k < args.length := by
      have hle := Nat.find_min' hexists hnone
      omega
    refine ⟨k, hlt, halive, hrefused, hblamed k hlt (halive k (Nat.le_refl k)) hrefused, ?_, ?_⟩
    · exact fun j hj => (hargument j _).1 (halive j hj)
    · exact fun j hj hkj => (hargument j hj).2 (hempty hkj hrefused)

/-- Integers or strings throughout: the second of three arguments is blamed, and nothing is learned
about the third. -/
theorem invoke_mismatch_second :
    let s := ((State.initial.expect 1 (.exact .integer)).expect 2 (.exact .string)).expect 3 .all
    let n : Node := ⟨4, .unknown⟩
    let args : List Node := [⟨1, .unknown⟩, ⟨2, ⟨5, 8, 1, 6⟩⟩, ⟨3, .unknown⟩]
    let signatures : List Signature :=
      [⟨[.integer, .integer, .integer], .exact .integer⟩,
        ⟨[.string, .string, .string], .exact .string⟩, ⟨[.integer], .exact .integer⟩]
    let after := (s.invoke n args signatures).state
    (args.map Node.id).Nodup ∧ (∀ a ∈ args, a.id ≠ n.id) ∧
      (s.invoke n args signatures).problems.filter (·.code == Code.typeMismatch.text) =
        [⟨.mismatch (.covariant .integer) (.exact .string), ⟨5, 8, 1, 6⟩⟩] ∧
      after.types 2 = .empty ∧ after.info? 3 = s.info? 3 := by
  intro s n args signatures after
  have hnodup : (args.map Node.id).Nodup := by decide
  have hn : ∀ a ∈ args, a.id ≠ n.id := by decide
  obtain ⟨-, -, hblamed⟩ := invoke_mismatch (s := s) signatures hnodup hn
  obtain ⟨k, hk, halive, hrefused, hreports, hnarrowed, hlater⟩ := hblamed (by decide) (by decide)
  have hpast : k < 2 := by
    by_contra hle
    exact halive 2 (by omega) (by decide)
  have hposition : k = 1 := by
    rcases Nat.lt_or_ge k 1 with hlt | hge
    · obtain rfl : k = 0 := by omega
      exact absurd hrefused (by decide)
    · omega
  subst hposition
  refine ⟨hnodup, hn, hreports, ?_, hlater 2 (by decide) (by decide)⟩
  exact hnarrowed 1 (Nat.le_refl 1)

end State
end QueryTyping
