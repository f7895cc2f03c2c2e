import Imperative.Proofs.Frame
import Imperative.Proofs.Lockstep

/-!
# A call depends on its arguments only

What a call comes to depends on the values of its arguments and on the room that is left on the
stack, and on nothing else that the records of the callers hold.

The arguments are evaluated one after the other, each on the stack on which the call began
(`Machine.Halts.stack_eq_of_eval`), so the record of the call depends on their values only.  The
body then runs in lockstep on both stacks, since nothing is in its reach but that record
(`Machine.Halts.alike`); and what the end of the call makes of it is not a matter of the stack
(`Machine.Blind`).
-/

namespace Imperative

namespace Machine

/-- The machine comes to a halt with the outcome. -/
def Gives (table : ProcedureTable) (s : MachineState) (o : Outcome) : Prop :=
  ∃ t, Halts table s o t

/-- How the machine goes on to its end behind a step. -/
def Ends (table : ProcedureTable) (o : Outcome) (t : CallStack) : Transition → Prop
  | .next _ s => Halts table s o t
  | .halt _ o' t' => o = o' ∧ t = t'

variable {table : ProcedureTable} {o : Outcome} {stack s₁ s₂ t : CallStack}

theorem halts_iff_ends {s : MachineState} : Halts table s o t ↔ Ends table o t (step table s) := by
  cases hstep : step table s with
  | next events s' => exact halts_iff_of_next hstep
  | halt events o' t' => exact halts_iff_of_halt hstep

/-! ## The arguments -/

/-- Supplying an argument is putting its value into the record. -/
theorem ends_supply_cons {arg : Expr} {v : Value} (hne : stack.records ≠ [])
    (hv : Gives table ⟨.eval arg .done, stack⟩ (.value v)) (invocation : Invocation)
    (record : Record) (param : String) (pending : List (String × Expr)) (next : ValueCont) :
    Ends table o t (supply invocation record ((param, arg) :: pending) next stack) ↔
      Ends table o t (supply invocation (record.set param v) pending next stack) := by
  obtain ⟨u, hu⟩ := hv
  obtain rfl := hu.stack_eq_of_eval hne (by rintro _ ⟨⟩)
  let kv : ValueCont := .argument invocation record param pending next
  calc Halts table ⟨.eval arg kv, u⟩ o t
      ↔ Halts table ⟨.value v kv, u⟩ o t := hu.onto_iff kv .done
    _ ↔ _ := halts_iff_ends

/-- On two stacks on which the arguments have the same values, the body is entered with the same
record. -/
theorem exists_record_of_supply (hne₁ : s₁.records ≠ []) (hne₂ : s₂.records ≠ [])
    {pending : List (String × Expr)}
    (hargs : ∀ p ∈ pending, ∃ v, Gives table ⟨.eval p.2 .done, s₁⟩ (.value v)
      ∧ Gives table ⟨.eval p.2 .done, s₂⟩ (.value v))
    (invocation : Invocation) (record : Record) (next : ValueCont) :
    ∃ record', ∀ s ∈ [s₁, s₂], ∀ o t,
      Ends table o t (supply invocation record pending next s) ↔
        Ends table o t (enterBody invocation record' next s) := by
  induction pending generalizing record with
  | nil => exact ⟨record, fun _ _ _ _ => Iff.rfl⟩
  | cons p pending ih =>
    obtain ⟨param, arg⟩ := p
    obtain ⟨⟨v, hv₁, hv₂⟩, hrest⟩ := List.forall_mem_cons.mp hargs
    obtain ⟨record', hrecord'⟩ := ih hrest (record.set param v)
    refine ⟨record', fun s hs o t => Iff.trans ?_ (hrecord' s hs o t)⟩
    simp only [List.mem_cons, List.not_mem_nil, or_false] at hs
    rcases hs with rfl | rfl
    · exact ends_supply_cons hne₁ hv₁ invocation record param pending next
    · exact ends_supply_cons hne₂ hv₂ invocation record param pending next

/-! ## The body -/

/-- What the continuations make of an outcome does not depend on the stack. -/
def Blind (table : ProcedureTable) (kv : ValueCont) (kf : FlowCont) : Prop :=
  ∀ o', ∃ o, ∀ u, ∃ t, Resumes table kv kf o' u o t

theorem blind_discard : Blind table (.discard .done) .done := by
  intro o'
  cases o' with
  | failure e => exact ⟨.failure e, fun u => ⟨u, rfl, rfl⟩⟩
  | value v => exact ⟨.flow .completed, fun u => ⟨u, .later rfl (.now rfl)⟩⟩
  | flow f => exact ⟨.flow f, fun u => ⟨u, .now rfl⟩⟩

theorem blind_invoked (invocation : Invocation) :
    Blind table .done (.invoked invocation .done) := by
  intro o'
  cases o' with
  | failure e => exact ⟨.failure e, fun u => ⟨u, rfl, rfl⟩⟩
  | value v => exact ⟨.value v, fun u => ⟨u, .now rfl⟩⟩
  | flow f =>
    rcases endCall_cases invocation f .done with ⟨v, hend⟩ | ⟨e, hend⟩
    · exact ⟨.value v, fun u => ⟨(dropRecord u).2, .later (hend u) (.now rfl)⟩⟩
    · exact ⟨.failure e, fun u => ⟨(dropRecord u).2, .now (hend u)⟩⟩

theorem Blind.gives_onto {kv : ValueCont} {kf : FlowCont} (hblind : Blind table kv kf)
    {c : Control} (h : ∀ o', Gives table ⟨c, s₁⟩ o' → Gives table ⟨c, s₂⟩ o')
    (ho : Gives table ⟨c.onto kv kf, s₁⟩ o) : Gives table ⟨c.onto kv kf, s₂⟩ o := by
  obtain ⟨t, ht⟩ := ho
  obtain ⟨o', u, hu, -⟩ := resumes_of_halts_onto kv kf ht
  obtain ⟨u', hu'⟩ := h o' ⟨u, hu⟩
  obtain ⟨o'', hresumes⟩ := hblind o'
  obtain ⟨t'', ht''⟩ := hresumes u
  obtain ⟨rfl, -⟩ := ht.unique ((hu.onto_iff kv kf).mpr ht'')
  obtain ⟨t', ht'⟩ := hresumes u'
  exact ⟨t', (hu'.onto_iff kv kf).mpr ht'⟩

/-- Two bodies that are entered with the same record, on stacks of the same height with the same
limit, come to the same outcome. -/
theorem gives_enterBody (hlength : s₂.records.length = s₁.records.length)
    (hlimit : s₂.limit = s₁.limit) (invocation : Invocation) (record : Record)
    (h : ∃ t, Ends table o t (enterBody invocation record .done s₁)) :
    ∃ t, Ends table o t (enterBody invocation record .done s₂) := by
  have hroom := CallStack.push?_eq_none_congr hlength hlimit record
  cases ht₁ : s₁.push? record with
  | none =>
    rw [enterBody, ht₁] at h
    rw [enterBody, hroom.mpr ht₁]
    obtain ⟨t, rfl, rfl⟩ := h
    rw [hlimit]
    exact ⟨s₂, rfl, rfl⟩
  | some t₁ =>
    cases ht₂ : s₂.push? record with
    | none => rw [hroom.mp ht₂] at ht₁; cases ht₁
    | some t₂ =>
      rw [enterBody, ht₁] at h
      rw [enterBody, ht₂]
      obtain ⟨hrecords₁, hlimit₁⟩ := CallStack.records_of_push? ht₁
      obtain ⟨hrecords₂, hlimit₂⟩ := CallStack.records_of_push? ht₂
      have hshares : t₁.Shares 1 t₂ :=
        ⟨[record], s₁.records, s₂.records, rfl, hrecords₁, hrecords₂, hlength.symm⟩
      have hsame : t₂.limit = t₁.limit := by rw [hlimit₁, hlimit₂, hlimit]
      -- the body, without what comes behind it, runs in lockstep
      let c : Control := .flow .completed (.sequence invocation.body .done)
      refine (blind_invoked invocation).gives_onto (c := c) ?_ h
      rintro o' ⟨u, hu⟩
      obtain ⟨u', hu', -⟩ := hu.alike hshares hsame
      exact ⟨u', hu'⟩

/-! ## The call -/

/-- What a call comes to on one stack, it comes to on the other. -/
theorem gives_call_of_gives (hne : s₁.records ≠ [])
    (hlength : s₂.records.length = s₁.records.length) (hlimit : s₂.limit = s₁.limit)
    {args : List Expr} (hargs : ∀ arg ∈ args, ∃ v,
      Gives table ⟨.eval arg .done, s₁⟩ (.value v) ∧ Gives table ⟨.eval arg .done, s₂⟩ (.value v))
    (name : String) (resolved : Option ProcedureSymbol) (site : Span)
    (h : Gives table ⟨.eval (.call name args resolved site) .done, s₁⟩ o) :
    Gives table ⟨.eval (.call name args resolved site) .done, s₂⟩ o := by
  have hne₂ : s₂.records ≠ [] := by
    rw [← List.length_pos_iff] at hne ⊢
    exact hlength ▸ hne
  simp only [Gives, halts_iff_ends, step, stepEval, beginCall] at h ⊢
  cases resolved with
  | none =>
    obtain ⟨t, rfl, rfl⟩ := h
    exact ⟨s₂, rfl, rfl⟩
  | some symbol =>
    cases hfind : table.find? symbol.id with
    | none =>
      simp only [hfind] at h ⊢
      obtain ⟨t, rfl, rfl⟩ := h
      exact ⟨s₂, rfl, rfl⟩
    | some procedure =>
      simp only [hfind] at h ⊢
      have hpending : ∀ p ∈ (symbol.params.map VariableSymbol.name).zip args, ∃ v,
          Gives table ⟨.eval p.2 .done, s₁⟩ (.value v)
            ∧ Gives table ⟨.eval p.2 .done, s₂⟩ (.value v) :=
        fun p hp => hargs p.2 (List.of_mem_zip hp).2
      obtain ⟨record, hrecord⟩ := exists_record_of_supply hne hne₂ hpending
        ⟨symbol, procedure.body, site⟩
        { name := symbol.name, kind := .procedure, level := symbol.level + 1 } .done
      simp only [hrecord s₁ (by simp)] at h
      simp only [hrecord s₂ (by simp)]
      exact gives_enterBody hlength hlimit _ record h

/-- **A call depends on its arguments only.**  Take two stacks with the same limit that hold the
same number of records, at least one, whatever these records are.  If every argument of a call
has one value on both stacks, then the call comes to the same outcome on both, be it a value or
a failure, and so to none on either if it comes to none on one; as an expression and as a
statement. -/
theorem call_depends_on_arguments (table : ProcedureTable) (name : String) (args : List Expr)
    (resolved : Option ProcedureSymbol) (site : Span) (s₁ s₂ : CallStack)
    (hne : s₁.records ≠ []) (hlength : s₂.records.length = s₁.records.length)
    (hlimit : s₂.limit = s₁.limit)
    (hargs : ∀ arg ∈ args, ∃ v, Gives table ⟨.eval arg .done, s₁⟩ (.value v)
      ∧ Gives table ⟨.eval arg .done, s₂⟩ (.value v)) (o : Outcome) :
    (Gives table ⟨.eval (.call name args resolved site) .done, s₁⟩ o ↔
        Gives table ⟨.eval (.call name args resolved site) .done, s₂⟩ o)
      ∧ (Gives table ⟨.exec (.call name args resolved site) .done, s₁⟩ o ↔
        Gives table ⟨.exec (.call name args resolved site) .done, s₂⟩ o) := by
  have hne₂ : s₂.records ≠ [] := by
    rw [← List.length_pos_iff] at hne ⊢
    exact hlength ▸ hne
  have hargs₂ : ∀ arg ∈ args, ∃ v, Gives table ⟨.eval arg .done, s₂⟩ (.value v)
      ∧ Gives table ⟨.eval arg .done, s₁⟩ (.value v) :=
    fun arg harg => (hargs arg harg).imp fun _ => And.symm
  have h₁₂ : ∀ o, Gives table ⟨.eval (.call name args resolved site) .done, s₁⟩ o →
      Gives table ⟨.eval (.call name args resolved site) .done, s₂⟩ o :=
    fun _ => gives_call_of_gives hne hlength hlimit hargs name resolved site
  have h₂₁ : ∀ o, Gives table ⟨.eval (.call name args resolved site) .done, s₂⟩ o →
      Gives table ⟨.eval (.call name args resolved site) .done, s₁⟩ o :=
    fun _ => gives_call_of_gives hne₂ hlength.symm hlimit.symm hargs₂ name resolved site
  -- as a statement, the call drops its value
  let c : Control := .eval (.call name args resolved site) .done
  have hexec : ∀ s, Gives table ⟨.exec (.call name args resolved site) .done, s⟩ o ↔
      Gives table ⟨c.onto (.discard .done) .done, s⟩ o := by
    intro s
    simp only [Gives, halts_iff_ends]
    exact Iff.rfl
  refine ⟨⟨h₁₂ o, h₂₁ o⟩, ?_⟩
  rw [hexec, hexec]
  exact ⟨blind_discard.gives_onto h₁₂, blind_discard.gives_onto h₂₁⟩

/-- The callers bind `g` to different values, and the procedure, which reads `g`, sees neither:
its call fails on both stacks in the same way. -/
theorem call_depends_on_arguments_global :
    ∃ (table : ProcedureTable) (call : Expr) (s₁ s₂ : CallStack) (o : Outcome),
      table = ⟨[⟨⟨0⟩, "f", [⟨"x", .integer, {}⟩], some .integer, [.giveBack (.var "g" {}) {}]⟩]⟩
      ∧ call = .call "f" [.number 3 {}]
        (some ⟨⟨0⟩, "f", [⟨"x", .integer, 2⟩], some .integer, 1⟩) {}
      ∧ s₁.top?.bind (·.get? "g") = some (.int 1) ∧ s₂.top?.bind (·.get? "g") = some (.int 2)
      ∧ o = .failure ⟨.unboundName "g" "f", {}⟩
      ∧ Gives table ⟨.eval call .done, s₁⟩ o ∧ Gives table ⟨.eval call .done, s₂⟩ o := by
  let table : ProcedureTable :=
    ⟨[⟨⟨0⟩, "f", [⟨"x", .integer, {}⟩], some .integer, [.giveBack (.var "g" {}) {}]⟩]⟩
  let symbol : ProcedureSymbol := ⟨⟨0⟩, "f", [⟨"x", .integer, 2⟩], some .integer, 1⟩
  let program : Record := { name := "program", kind := .program, level := 1 }
  let s₁ : CallStack := { records := [program.set "g" (.int 1)], limit := 8 }
  let s₂ : CallStack := { records := [program.set "g" (.int 2)], limit := 8 }
  obtain ⟨t, ht⟩ : ∃ t, run (fun _ _ => ()) table 20 ()
      ⟨.eval (.call "f" [.number 3 {}] (some symbol) {}) .done, s₁⟩
      = some ((), .failure ⟨.unboundName "g" "f", {}⟩, t) := ⟨_, rfl⟩
  have hgives := (halts_iff_run (fun _ _ => ()) ()).mpr ⟨20, (), ht⟩
  have hargs : ∀ arg ∈ [Expr.number 3 {}], ∃ v, Gives table ⟨.eval arg .done, s₁⟩ (.value v)
      ∧ Gives table ⟨.eval arg .done, s₂⟩ (.value v) := by
    rintro arg harg
    rw [List.mem_singleton.mp harg]
    exact ⟨.int 3, ⟨s₁, .later rfl (.now rfl)⟩, ⟨s₂, .later rfl (.now rfl)⟩⟩
  refine ⟨table, _, s₁, s₂, _, rfl, rfl, rfl, rfl, rfl, ⟨t, hgives⟩, ?_⟩
  exact (call_depends_on_arguments table "f" [.number 3 {}] (some symbol) {} s₁ s₂
    (List.cons_ne_nil _ _) rfl rfl hargs _).1.mp ⟨t, hgives⟩

end Machine

end Imperative
