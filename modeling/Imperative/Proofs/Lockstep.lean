import Imperative.Proofs.Continuations

/-!
# Two runs in lockstep

A step reads and changes the innermost record only, takes a record off only behind the body that
it belongs to, and of everything below the innermost record it knows no more than how many
records there are.  So two runs of the same control go side by side as long as their stacks
share the records of the calls that are going on and the one record below those
(`CallStack.Shares`), and have the same number of records below them.

The limit of the stack is looked at in one place only, when a body is entered.  All other
actions are done alike whatever the limits are (`Action.perform_alike`); entering a body is done
alike if both stacks take the record (`Machine.enterBody_alike`).
-/

namespace Imperative

/-- The two stacks have the same `n` innermost records, and as many records below them. -/
def CallStack.Shares (n : Nat) (s s' : CallStack) : Prop :=
  ∃ shared rest rest', shared.length = n ∧ s.records = shared ++ rest
    ∧ s'.records = shared ++ rest' ∧ rest.length = rest'.length

namespace CallStack.Shares

variable {n : Nat} {s s' : CallStack}

theorem refl (h : n ≤ s.records.length) {s' : CallStack} (hs : s'.records = s.records) :
    s.Shares n s' :=
  ⟨s.records.take n, s.records.drop n, s.records.drop n, List.length_take_of_le h,
    (List.take_append_drop n _).symm, hs.trans (List.take_append_drop n _).symm, rfl⟩

theorem length_eq (h : s.Shares n s') : s.records.length = s'.records.length := by
  obtain ⟨shared, rest, rest', -, hs, hs', hlength⟩ := h
  rw [hs, hs', List.length_append, List.length_append, hlength]

theorem exists_cons (h : s.Shares (n + 1) s') :
    ∃ r below below', s.records = r :: below ∧ s'.records = r :: below'
      ∧ ∀ t t' : CallStack, (t.records = below → t'.records = below' → t.Shares n t')
        ∧ ∀ r', t.records = r' :: below → t'.records = r' :: below' → t.Shares (n + 1) t' := by
  obtain ⟨shared, rest, rest', hn, hs, hs', hlength⟩ := h
  obtain ⟨r, shared, rfl⟩ := List.exists_cons_of_length_eq_add_one hn
  refine ⟨r, shared ++ rest, shared ++ rest', hs, hs', fun t t' => ⟨fun ht ht' => ?_, ?_⟩⟩
  · exact ⟨shared, rest, rest', Nat.succ.inj hn, ht, ht', hlength⟩
  · intro r' ht ht'
    exact ⟨r' :: shared, rest, rest', hn, ht, ht', hlength⟩

theorem top?_eq (h : s.Shares (n + 1) s') : s'.top? = s.top? := by
  obtain ⟨r, below, below', hs, hs', -⟩ := h.exists_cons
  rw [top?_of_cons hs, top?_of_cons hs']

theorem modifyTop? (h : s.Shares (n + 1) s') (f : Record → Record) :
    ∃ t t', s.modifyTop? f = some t ∧ s'.modifyTop? f = some t' ∧ t.Shares (n + 1) t' := by
  obtain ⟨r, below, below', hs, hs', hshares⟩ := h.exists_cons
  obtain ⟨t, ht, hrecords⟩ := modifyTop?_of_cons hs f
  obtain ⟨t', ht', hrecords'⟩ := modifyTop?_of_cons hs' f
  exact ⟨t, t', ht, ht', (hshares t t').2 (f r) hrecords hrecords'⟩

theorem pop? (h : s.Shares (n + 1) s') :
    ∃ r t t', s.pop? = some (r, t) ∧ s'.pop? = some (r, t') ∧ t.Shares n t' := by
  obtain ⟨r, below, below', hs, hs', hshares⟩ := h.exists_cons
  obtain ⟨t, ht, hrecords⟩ := pop?_of_cons hs
  obtain ⟨t', ht', hrecords'⟩ := pop?_of_cons hs'
  exact ⟨r, t, t', ht, ht', (hshares t t').1 hrecords hrecords'⟩

theorem push? (h : s.Shares n s') {r : Record} {t t' : CallStack} (ht : s.push? r = some t)
    (ht' : s'.push? r = some t') : t.Shares (n + 1) t' := by
  obtain ⟨shared, rest, rest', hn, hs, hs', hlength⟩ := h
  refine ⟨r :: shared, rest, rest', congrArg Nat.succ hn, ?_, ?_, hlength⟩
  · rw [(records_of_push? ht).1, hs, List.cons_append]
  · rw [(records_of_push? ht').1, hs', List.cons_append]

end CallStack.Shares

/-! ## Steps that are alike -/

/-- Two runs go on side by side, or end alike: with the same outcome, and unless that is a
failure with the same innermost record. -/
def Transition.Alike : Transition → Transition → Prop
  | .next _ s, .next _ s' =>
    s'.control = s.control ∧ s.stack.Shares (s.control.calls + 1) s'.stack
  | .halt _ o t, .halt _ o' t' => o' = o ∧ ((∀ e, o ≠ .failure e) → t.Shares 1 t')
  | _, _ => False

namespace Transition.Alike

variable {u : Transition} {events : List Event}

theorem eq_next {s : MachineState} (h : (Transition.next events s).Alike u) :
    ∃ events' stack, u = .next events' ⟨s.control, stack⟩
      ∧ s.stack.Shares (s.control.calls + 1) stack := by
  cases u with
  | halt => exact h.elim
  | next events' s' =>
    obtain ⟨control, stack⟩ := s'
    obtain ⟨hcontrol, hshares⟩ := h
    exact ⟨events', stack, hcontrol ▸ rfl, hshares⟩

theorem eq_halt {o : Outcome} {t : CallStack} (h : (Transition.halt events o t).Alike u) :
    ∃ events' t', u = .halt events' o t' ∧ ((∀ e, o ≠ .failure e) → t.Shares 1 t') := by
  cases u with
  | next => exact h.elim
  | halt events' o' t' =>
    obtain ⟨rfl, hshares⟩ := h
    exact ⟨events', t', rfl, hshares⟩

end Transition.Alike

section Alike

variable {table : ProcedureTable} {s s' : CallStack}

namespace Machine

theorem update_alike {next : FlowCont} (h : s.Shares (next.calls + 1) s')
    (change : Record → Record) (f : Flow) (site : Span) :
    (update change f site next s).Alike (update change f site next s') := by
  obtain ⟨t, t', ht, ht', hshares⟩ := h.modifyTop? change
  rw [update, update, ht, ht']
  exact ⟨rfl, hshares⟩

theorem readName_alike {next : ValueCont} (h : s.Shares (next.calls + 1) s') (name : String)
    (site : Span) : (readName name site next s).Alike (readName name site next s') := by
  rw [readName, readName, h.top?_eq]
  cases s.top? with
  | none => exact ⟨rfl, fun hok => absurd rfl (hok _)⟩
  | some record =>
    dsimp only
    cases record.get? name with
    | some v => exact ⟨rfl, h⟩
    | none => exact ⟨rfl, fun hok => absurd rfl (hok _)⟩

theorem endCall_alike {next : ValueCont} (h : s.Shares (next.calls + 2) s')
    (invocation : Invocation) (f : Flow) :
    (endCall invocation f next s).Alike (endCall invocation f next s') := by
  obtain ⟨r, t, t', ht, ht', hshares⟩ := h.pop?
  rcases endCall_cases invocation f next with ⟨v, hend⟩ | ⟨e, hend⟩
  · rw [hend, hend, dropRecord, dropRecord, ht, ht']
    exact ⟨rfl, hshares⟩
  · rw [hend, hend]
    exact ⟨rfl, fun hok => absurd rfl (hok _)⟩

/-- Two stacks that both take the record of a call. -/
theorem enterBody_alike {next : ValueCont} (h : s.Shares (next.calls + 1) s')
    {record : Record} {t t' : CallStack} (ht : s.push? record = some t)
    (ht' : s'.push? record = some t') (invocation : Invocation) :
    (enterBody invocation record next s).Alike (enterBody invocation record next s') := by
  rw [enterBody, enterBody, ht, ht']
  exact ⟨rfl, h.push? ht ht'⟩

end Machine

/-- All actions but entering a body are done alike. -/
theorem Action.perform_alike {a : Action} {n : Nat} (hn : a.During n) (h : s.Shares (n + 1) s')
    (ha : ∀ invocation record next, a ≠ .enter invocation record next) :
    (a.perform s).Alike (a.perform s') := by
  cases a with
  | go control =>
    subst hn
    exact ⟨rfl, h⟩
  | halt outcome =>
    cases outcome with
    | failure e => exact ⟨rfl, fun hok => absurd rfl (hok e)⟩
    | value v | flow f =>
      subst hn
      exact ⟨rfl, fun _ => h⟩
  | read name site next =>
    subst hn
    exact Machine.readName_alike h name site
  | bind name v site next =>
    subst hn
    exact Machine.update_alike h ..
  | giveBack v site next =>
    subst hn
    exact Machine.update_alike h ..
  | enter invocation record next => exact absurd rfl (ha invocation record next)
  | leave invocation f next =>
    subst hn
    exact Machine.endCall_alike h invocation f

namespace Machine

/-- A step of two stacks that hold as many records as each other, under one limit. -/
theorem step_alike {c : Control} (h : s.Shares (c.calls + 1) s') (hlimit : s'.limit = s.limit) :
    (step table ⟨c, s⟩).Alike (step table ⟨c, s'⟩) := by
  have hn := c.action_during table
  rw [step_eq_perform, step_eq_perform]
  dsimp only
  by_cases henters : ∃ invocation record next, c.action table = .enter invocation record next
  · obtain ⟨invocation, record, next, ha⟩ := henters
    rw [ha] at hn ⊢
    have hcalls : next.calls = c.calls := hn
    rw [← hcalls] at h
    -- both stacks take the record, or neither does
    have hroom := CallStack.push?_eq_none_congr h.length_eq.symm hlimit record
    cases ht : s.push? record with
    | none =>
      rw [Action.perform, Action.perform, enterBody, enterBody, ht, hroom.mpr ht, hlimit]
      exact ⟨rfl, fun hok => absurd rfl (hok _)⟩
    | some t =>
      cases ht' : s'.push? record with
      | none => rw [hroom.mp ht'] at ht; cases ht
      | some t' => exact enterBody_alike h ht ht' invocation
  · exact Action.perform_alike hn h fun invocation record next ha =>
      henters ⟨invocation, record, next, ha⟩

/-- **Whole runs under one limit.**  They come to the same end. -/
theorem Halts.alike {state : MachineState} {o : Outcome} {t : CallStack}
    (hrun : Halts table state o t) (h : state.stack.Shares (state.control.calls + 1) s')
    (hlimit : s'.limit = state.stack.limit) :
    ∃ t', Halts table ⟨state.control, s'⟩ o t' ∧ ((∀ e, o ≠ .failure e) → t.Shares 1 t') := by
  induction hrun generalizing s' with
  | @now state events o t hstep =>
    have halike : (step table state).Alike (step table ⟨state.control, s'⟩) :=
      step_alike h hlimit
    rw [hstep] at halike
    obtain ⟨events', t', hstep', hend⟩ := halike.eq_halt
    exact ⟨t', .now hstep', hend⟩
  | @later state next events o t hstep rest ih =>
    have halike : (step table state).Alike (step table ⟨state.control, s'⟩) :=
      step_alike h hlimit
    have hkept := limit_step table state
    have hkept' := limit_step table ⟨state.control, s'⟩
    rw [hstep] at halike hkept
    obtain ⟨events', stack', hstep', hshares⟩ := halike.eq_next
    rw [hstep'] at hkept'
    obtain ⟨t', hhalts, hend⟩ := ih hshares (hkept'.trans (hlimit.trans hkept.symm))
    exact ⟨t', .later hstep' hhalts, hend⟩

end Machine

end Alike

end Imperative
