import QueryTyping.Proofs.Check.Overload

/-!
# Signatures are not ranked

An invocation does not prefer one of its signatures to another.  In what order they are listed, and
how often each one is, makes no difference: not to what is known afterwards, and not to what is
reported, to the letter.

What the remaining signatures accept together is a union, and so are their outputs.  A union is the
least set above its parts, so it only depends on which parts there are.  Narrowing looks at nothing
else: before each argument the same signatures remain on both sides, the same is expected of the
argument, and the same signatures are dropped.  Nothing is asked of the arguments, which may be one
and the same node.

Main statements: `unions_le_iff` says that a union is the least set above its parts, `narrow_same`
that the same signatures remain and the same is reported, and `invoke_unranked` that an invocation
has the same outcome.
-/

namespace QueryTyping

namespace TypeSet

/-- **A union is the least set above its parts.** -/
theorem unions_le_iff {as : List TypeSet} {c : TypeSet} : unions as ≤ c ↔ ∀ a ∈ as, a ≤ c := by
  have key : ∀ (as : List TypeSet) (b : TypeSet),
      as.foldl union b ≤ c ↔ b ≤ c ∧ ∀ a ∈ as, a ≤ c := by
    intro as
    induction as with
    | nil => simp
    | cons a as ih =>
        intro b
        have hunion : b.union a ≤ c ↔ b ≤ c ∧ a ≤ c := sup_le_iff
        rw [List.foldl_cons, ih, hunion, and_assoc, List.forall_mem_cons]
  have hempty : empty ≤ c := bot_le
  rw [unions, key, and_iff_right hempty]

/-- The same parts give the same union. -/
theorem unions_same {as bs : List TypeSet} (h : ∀ a, a ∈ bs ↔ a ∈ as) : unions bs = unions as := by
  refine eq_of_forall_ge_iff fun c => ?_
  rw [unions_le_iff, unions_le_iff]
  simp only [h]

end TypeSet

namespace State

variable {alive alive' signatures signatures' : List Signature}

/-- What is made of each signature is made of the same ones. -/
theorem mem_map_same {β : Type} (h : ∀ g, g ∈ alive' ↔ g ∈ alive) (f : Signature → β) (b : β) :
    b ∈ alive'.map f ↔ b ∈ alive.map f := by
  simp only [List.mem_map, h]

theorem eq_nil_same (h : ∀ g, g ∈ alive' ↔ g ∈ alive) : alive' = [] ↔ alive = [] := by
  simp only [List.eq_nil_iff_forall_not_mem, h]

/-- **Narrowing, side by side.**  If the same signatures remain before the arguments, the same is
found out about the arguments and reported of them, and the same signatures remain after them. -/
theorem narrow_same (h : ∀ g, g ∈ alive' ↔ g ∈ alive) (args : List Node) (s : State) :
    (narrow args alive' s).1 = (narrow args alive s).1 ∧
      ∀ g, g ∈ (narrow args alive' s).2 ↔ g ∈ (narrow args alive s).2 := by
  induction args generalizing alive alive' s with
  | nil => exact ⟨rfl, h⟩
  | cons n args ih =>
      by_cases hnone : alive = []
      · rw [hnone, (eq_nil_same h).mpr hnone]
        exact ⟨rfl, fun g => Iff.rfl⟩
      · have hsome : alive' ≠ [] := fun hnone' => hnone ((eq_nil_same h).mp hnone')
        have haccepted : TypeSet.unions (alive'.map Signature.accepted) =
            TypeSet.unions (alive.map Signature.accepted) :=
          TypeSet.unions_same (mem_map_same h Signature.accepted)
        rw [narrow_cons_of_alive hnone, narrow_cons_of_alive hsome, haccepted]
        dsimp only
        generalize s.expectTypes n (.unions (alive.map Signature.accepted)) .mismatch = o
        have hfit : ∀ g, g ∈ alive'.filter (fun g => (o.state.types n.id).meets g.accepted) ↔
            g ∈ alive.filter fun g => (o.state.types n.id).meets g.accepted := by
          intro g
          rw [List.mem_filter, List.mem_filter, h]
        obtain ⟨houtcome, hlast⟩ := ih (mem_map_same hfit Signature.rest) o.state
        rw [houtcome]
        exact ⟨rfl, hlast⟩

theorem outputs_same (h : ∀ g, g ∈ alive' ↔ g ∈ alive) : outputs alive' = outputs alive := by
  have houtputs : TypeSet.unions (alive'.map Signature.output) =
      TypeSet.unions (alive.map Signature.output) :=
    TypeSet.unions_same (mem_map_same h Signature.output)
  simp only [outputs, List.isEmpty_iff, eq_nil_same h, houtputs]

/-- **Signatures are not ranked.**  Signatures in another order, and each of them any number of
times, lead to the same state and the same reports. -/
theorem invoke_unranked (h : ∀ g, g ∈ signatures' ↔ g ∈ signatures) (s : State) (n : Node)
    (args : List Node) : s.invoke n args signatures' = s.invoke n args signatures := by
  have hmatching : ∀ g, g ∈ signatures'.filter (·.arity == args.length) ↔
      g ∈ signatures.filter (·.arity == args.length) := by
    intro g
    rw [List.mem_filter, List.mem_filter, h]
  obtain ⟨houtcome, halive⟩ := narrow_same hmatching args s
  rw [invoke, invoke]
  dsimp only
  rw [houtcome, outputs_same halive]

/-- Both arguments are one node, and so is the invocation: an integer or a string.  After the second
argument a string is left of it, and the output conflicts with what it was. -/
theorem invoke_unranked_reversed :
    let a : Node := ⟨1, .unknown⟩
    let signatures : List Signature :=
      [⟨[.integer, .boolean], .exact .integer⟩, ⟨[.string, .string], .exact .boolean⟩,
        ⟨[.number, .float], .exact .float⟩, ⟨[.string], .exact .string⟩]
    let signatures' := signatures.reverse ++ signatures.take 2
    let known := (TypeSet.exact .integer).union (.exact .string)
    (∀ g, g ∈ signatures' ↔ g ∈ signatures) ∧
      ∃ s, State.initial.specify a known = .ok s ∧
        s.invoke a [a, a] signatures' = s.invoke a [a, a] signatures ∧
        (s.invoke a [a, a] signatures').problems =
          [⟨.conflict (.exact .boolean) known, .unknown⟩] ∧
        (s.invoke a [a, a] signatures').state.types 1 = .exact .string := by
  intro a signatures signatures' known
  have hsame : ∀ g, g ∈ signatures' ↔ g ∈ signatures := by
    intro g
    rw [List.mem_append, List.mem_reverse]
    exact or_iff_left_of_imp List.mem_of_mem_take
  refine ⟨hsame, _, rfl, invoke_unranked hsame _ a [a, a], ?_, ?_⟩
  · decide
  · decide

end State
end QueryTyping
