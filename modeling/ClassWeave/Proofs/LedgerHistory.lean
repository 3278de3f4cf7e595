/-
# ClassWeave.Proofs.LedgerHistory -- what a ledger keeps over any sequence of operations

`Ledger.turns` are the operations of a sequence, each with the ledger that it comes to;
one that is refused changes nothing.  What an operation does when it is not refused is
told once (`allocate_eq_ok` and the others), and from that what it never takes back
(`Ledger.Leads`): the next free slot does not fall, a frame request stays as it is, and a
method that is open no more is never open again.  So any two turns of a sequence stand to
each other as `Ledger.Kept` says, whatever lies between them.

The ledger of a method being rewritten is always one that such a sequence leads to
(`MethodRewrite.ledger_run`), and the local variables that the new code declares take in
every slot below the next free one.
-/
import ClassWeave.Proofs.CodePayload
import ClassWeave.Proofs.RewriteTrace

set_option autoImplicit false

namespace ClassWeave

namespace Ledger

inductive Operation
  | reserve (maxLocals : UInt16)
  | allocate (type : ValueType)
  | addHandler (block : TryBlock)
  | request (label : Label) (wanted : FrameRequest)
  | beginClose
  | finishClose

/-- What an operation that is not refused says. -/
inductive Answer
  | done
  | slot (slot : UInt16)
  | recorded (isNew : Bool)

def answer (ledger : Ledger) : Operation → Except InstrumentError (Answer × Ledger)
  | .reserve maxLocals => .ok (.done, ledger.reserve maxLocals)
  | .allocate type => (ledger.allocate type).map fun (slot, after) => (.slot slot, after)
  | .addHandler block => (ledger.addHandler block).map fun after => (.done, after)
  | .request label wanted =>
    (ledger.request label wanted).map fun (isNew, after) => (.recorded isNew, after)
  | .beginClose => ledger.beginClose.map fun after => (.done, after)
  | .finishClose => .ok (.done, ledger.finishClose)

/-- The ledger after an operation, refused or not. -/
def advance (ledger : Ledger) (operation : Operation) : Ledger :=
  match ledger.answer operation with
  | .ok (_, after) => after
  | .error _ => ledger

/-- An operation and the ledger that it comes to. -/
structure Turn where
  before : Ledger
  operation : Operation

def turns (ledger : Ledger) : List Operation → List Turn
  | [] => []
  | operation :: rest => ⟨ledger, operation⟩ :: (ledger.advance operation).turns rest

namespace Turn

def after (turn : Turn) : Ledger := turn.before.advance turn.operation

/-- A slot for a value of the type is handed out. -/
def Grants (turn : Turn) (type : ValueType) (slot : UInt16) : Prop :=
  turn.operation = .allocate type ∧ ∃ after, turn.before.allocate type = .ok (slot, after)

/-- The frame that is asked for at the label, unless that is refused. -/
def accepted? (label : Label) (turn : Turn) : Option FrameRequest :=
  match turn.operation with
  | .request place wanted =>
    if place = label ∧ (turn.before.request place wanted).isOk then some wanted else none
  | _ => none

end Turn

/-! ## What each operation does -/

variable {ledger middle after : Ledger}

theorem ensureOpen_eq_ok {done : Unit} : ledger.ensureOpen = .ok done ↔ ledger.phase = .open := by
  unfold ensureOpen
  split <;> simp_all

theorem ensureOpen_of_closed (closed : ledger.phase ≠ .open) :
    ledger.ensureOpen = .error (.methodClosed ledger.phase) := if_neg closed

theorem allocate_eq_ok {type : ValueType} {slot : UInt16} :
    ledger.allocate type = .ok (slot, after) ↔
      ledger.phase = .open ∧ type ≠ .void ∧ ledger.nextLocal.toNat + type.size ≤ 0xFFFF ∧
        slot = ledger.nextLocal ∧
        after = { ledger with
          nextLocal := UInt16.ofNat (ledger.nextLocal.toNat + type.size) } := by
  unfold allocate
  rw [Outcome.bind_eq_ok]
  simp only [ensureOpen_eq_ok, exists_const]
  by_cases nothing : type = .void
  · simp only [nothing, if_true, ne_eq, not_true_eq_false, false_and, and_false, iff_false, not_and]
    exact fun _ => nofun
  · by_cases large : 0xFFFF < ledger.nextLocal.toNat + type.size
    · have unfit : ¬ ledger.nextLocal.toNat + type.size ≤ 0xFFFF := Nat.not_le.2 large
      simp only [nothing, large, unfit, if_true, if_false, false_and, and_false, iff_false, not_and]
      exact fun _ => nofun
    · have fits := Nat.not_lt.1 large
      simp only [nothing, large, fits, if_false, ne_eq, not_false_eq_true, true_and]
      constructor
      · rintro ⟨taken, same⟩
        cases same
        exact ⟨taken, rfl, rfl⟩
      · rintro ⟨taken, rfl, rfl⟩
        exact ⟨taken, rfl⟩

theorem addHandler_eq_ok {block : TryBlock} :
    ledger.addHandler block = .ok after ↔
      ledger.phase = .open ∧ after = { ledger with handlers := ledger.handlers.push block } := by
  unfold addHandler
  rw [Outcome.bind_eq_ok]
  simp only [ensureOpen_eq_ok, exists_const]
  exact and_congr_right fun _ => ⟨fun same => by cases same; rfl, fun same => same ▸ rfl⟩

/-- A request for a frame while the method is open. -/
theorem request_of_open (taken : ledger.phase = .open) (label : Label) (wanted : FrameRequest) :
    ledger.request label wanted =
      match ledger.requests[label]? with
      | none => .ok (true, { ledger with requests := ledger.requests.insert label wanted })
      | some existing =>
        if existing = wanted then .ok (false, ledger)
        else .error (.frameConflict label existing wanted) := by
  have opened : ledger.ensureOpen = .ok () := ensureOpen_eq_ok.2 taken
  unfold request
  rw [opened]
  rfl

theorem request_eq_ok {label : Label} {wanted : FrameRequest} {isNew : Bool} :
    ledger.request label wanted = .ok (isNew, after) ↔
      ledger.phase = .open ∧
        (ledger.requests[label]? = none ∧ isNew = true ∧
            after = { ledger with requests := ledger.requests.insert label wanted } ∨
          ledger.requests[label]? = some wanted ∧ isNew = false ∧ after = ledger) := by
  by_cases taken : ledger.phase = .open
  · rw [request_of_open taken]
    simp only [taken, true_and]
    cases known : ledger.requests[label]? with
    | none =>
      simp only [Except.ok.injEq, Prod.mk.injEq, reduceCtorEq, false_and, or_false, true_and]
      exact and_congr eq_comm eq_comm
    | some existing =>
      simp only [reduceCtorEq, false_and, false_or, Option.some.injEq]
      by_cases same : existing = wanted
      · simp only [same, if_true, Except.ok.injEq, Prod.mk.injEq, true_and]
        exact and_congr eq_comm eq_comm
      · simp only [same, if_false, reduceCtorEq, false_and]
  · have refused : ledger.request label wanted = .error (.methodClosed ledger.phase) := by
      unfold request
      rw [ensureOpen_of_closed taken]
      rfl
    simp only [refused, taken, reduceCtorEq, false_and]

theorem beginClose_eq_ok :
    ledger.beginClose = .ok after ↔
      ledger.phase = .open ∧ after = { ledger with phase := .closing } := by
  unfold beginClose
  rw [Outcome.bind_eq_ok]
  simp only [ensureOpen_eq_ok, exists_const]
  exact and_congr_right fun _ => ⟨fun same => by cases same; rfl, fun same => same ▸ rfl⟩

/-- Operations that need an open method. -/
def Operation.needsOpen : Operation → Bool
  | .reserve _ | .finishClose => false
  | _ => true

theorem answer_of_closed (closed : ledger.phase ≠ .open) (operation : Operation)
    (needs : operation.needsOpen = true) :
    ledger.answer operation = .error (.methodClosed ledger.phase) := by
  have shut := ensureOpen_of_closed closed
  cases operation with
  | reserve | finishClose => cases needs
  | allocate type =>
    unfold answer allocate
    rw [shut]
    rfl
  | addHandler block =>
    unfold answer addHandler
    rw [shut]
    rfl
  | request label wanted =>
    unfold answer request
    rw [shut]
    rfl
  | beginClose =>
    unfold answer beginClose
    rw [shut]
    rfl

/-! ## What no operation takes back -/

structure Leads (before after : Ledger) : Prop where
  nextLocal : before.nextLocal.toNat ≤ after.nextLocal.toNat
  requests : ∀ (label : Label) (wanted : FrameRequest), before.requests[label]? = some wanted →
    after.requests[label]? = some wanted
  closed : before.phase ≠ .open → after.phase ≠ .open

theorem Leads.refl (ledger : Ledger) : ledger.Leads ledger :=
  ⟨Nat.le_refl _, fun _ _ => id, id⟩

theorem Leads.trans (early : ledger.Leads middle) (late : middle.Leads after) :
    ledger.Leads after :=
  ⟨Nat.le_trans early.nextLocal late.nextLocal,
    fun label wanted known => late.requests label wanted (early.requests label wanted known),
    fun shut => late.closed (early.closed shut)⟩

theorem toNat_max (a b : UInt16) : (max a b).toNat = max a.toNat b.toNat := by
  show (if a ≤ b then b else a).toNat = _
  split
  · rename_i larger
    exact (Nat.max_eq_right larger).symm
  · rename_i smaller
    exact (Nat.max_eq_left (Nat.le_of_not_le smaller)).symm

theorem allocate_leads {type : ValueType} {slot : UInt16}
    (granted : ledger.allocate type = .ok (slot, after)) :
    slot = ledger.nextLocal ∧ after.nextLocal.toNat = slot.toNat + type.size ∧
      ledger.Leads after := by
  obtain ⟨_, _, fits, rfl, rfl⟩ := allocate_eq_ok.1 granted
  have next : (UInt16.ofNat (ledger.nextLocal.toNat + type.size)).toNat =
      ledger.nextLocal.toNat + type.size :=
    UInt16.toNat_ofNat_of_lt' (Nat.lt_succ_of_le fits)
  refine ⟨rfl, next, ?_, fun _ _ => id, id⟩
  rw [next]
  exact Nat.le_add_right _ _

theorem answer_leads {operation : Operation} {said : Answer}
    (done : ledger.answer operation = .ok (said, after)) : ledger.Leads after := by
  cases operation with
  | reserve maxLocals =>
    cases done
    refine ⟨?_, fun _ _ => id, id⟩
    show _ ≤ (max ledger.nextLocal maxLocals).toNat
    rw [toNat_max]
    exact Nat.le_max_left _ _
  | allocate type =>
    obtain ⟨⟨slot, next⟩, granted, same⟩ := Outcome.map_eq_ok.1 done
    cases same
    exact (allocate_leads granted).2.2
  | addHandler block =>
    obtain ⟨next, added, same⟩ := Outcome.map_eq_ok.1 done
    cases same
    obtain ⟨_, rfl⟩ := addHandler_eq_ok.1 added
    exact ⟨Nat.le_refl _, fun _ _ => id, id⟩
  | request place wanted =>
    obtain ⟨⟨isNew, next⟩, asked, same⟩ := Outcome.map_eq_ok.1 done
    cases same
    obtain ⟨_, ⟨free, _, rfl⟩ | ⟨_, _, rfl⟩⟩ := request_eq_ok.1 asked
    · refine ⟨Nat.le_refl _, fun label existing known => ?_, id⟩
      rw [Std.TreeMap.getElem?_insert]
      split
      · rename_i same
        rw [Std.LawfulEqCmp.eq_of_compare same, known] at free
        cases free
      · exact known
    · exact .refl _
  | beginClose =>
    obtain ⟨next, begun, same⟩ := Outcome.map_eq_ok.1 done
    cases same
    obtain ⟨_, rfl⟩ := beginClose_eq_ok.1 begun
    exact ⟨Nat.le_refl _, fun _ _ => id, fun _ => nofun⟩
  | finishClose =>
    cases done
    exact ⟨Nat.le_refl _, fun _ _ => id, fun _ => nofun⟩

theorem advance_of_ok {operation : Operation} {said : Answer}
    (done : ledger.answer operation = .ok (said, after)) : ledger.advance operation = after := by
  unfold advance
  rw [done]

theorem advance_of_error {operation : Operation} {cause : InstrumentError}
    (refused : ledger.answer operation = .error cause) : ledger.advance operation = ledger := by
  unfold advance
  rw [refused]

theorem advance_leads (ledger : Ledger) (operation : Operation) :
    ledger.Leads (ledger.advance operation) := by
  rcases done : ledger.answer operation with cause | ⟨said, after⟩
  · rw [advance_of_error done]
    exact .refl ledger
  · rw [advance_of_ok done]
    exact answer_leads done

/-! ## Sequences of operations -/

theorem foldl_leads : ∀ (operations : List Operation) (ledger : Ledger),
    ledger.Leads (operations.foldl advance ledger)
  | [], ledger => .refl ledger
  | operation :: rest, ledger => (ledger.advance_leads operation).trans (foldl_leads rest _)

theorem turns_leads {operations : List Operation} : ∀ turn ∈ ledger.turns operations,
    ledger.Leads turn.before ∧ turn.after.Leads (operations.foldl advance ledger) := by
  induction operations generalizing ledger with
  | nil => exact List.forall_mem_nil _
  | cons operation rest ih =>
    have step := ledger.advance_leads operation
    intro turn among
    rcases List.mem_cons.1 among with rfl | later
    · exact ⟨.refl ledger, foldl_leads rest _⟩
    · obtain ⟨before, behind⟩ := ih turn later
      exact ⟨step.trans before, behind⟩

/-- What one turn leaves behind, a later one comes to. -/
theorem turns_pairwise (ledger : Ledger) (operations : List Operation) :
    (ledger.turns operations).Pairwise fun early late => early.after.Leads late.before := by
  induction operations generalizing ledger with
  | nil => exact .nil
  | cons operation rest ih =>
    exact .cons (fun turn later => (turns_leads turn later).1) (ih _)

namespace Turn

variable {turn early late : Turn} {type type' : ValueType} {slot slot' : UInt16}

theorem Grants.next (grants : turn.Grants type slot) :
    slot = turn.before.nextLocal ∧ turn.after.nextLocal.toNat = slot.toNat + type.size ∧
      1 ≤ type.size := by
  obtain ⟨does, next, granted⟩ := grants
  have done : turn.before.answer turn.operation = .ok (.slot slot, next) := by
    rw [does]
    exact Outcome.map_eq_ok.2 ⟨_, granted, rfl⟩
  obtain ⟨own, taken, _⟩ := allocate_leads granted
  refine ⟨own, ?_, ?_⟩
  · rw [Turn.after, advance_of_ok done, taken]
  · obtain ⟨_, some_, _⟩ := allocate_eq_ok.1 granted
    cases type <;> first | exact absurd rfl some_ | exact Nat.le_refl _ | decide

theorem after_accepted {label : Label} {wanted : FrameRequest}
    (accepted : turn.accepted? label = some wanted) :
    turn.after.requests[label]? = some wanted := by
  obtain ⟨before, operation⟩ := turn
  cases operation with
  | request place asked =>
    simp only [accepted?] at accepted
    split at accepted
    · rename_i fine
      obtain ⟨rfl, fine⟩ := fine
      cases accepted
      rcases done : before.request place wanted with _ | ⟨isNew, next⟩
      · rw [done] at fine
        cases fine
      · have whole : before.answer (.request place wanted) = .ok (.recorded isNew, next) :=
          Outcome.map_eq_ok.2 ⟨_, done, rfl⟩
        rw [Turn.after, advance_of_ok whole]
        obtain ⟨_, ⟨_, _, rfl⟩ | ⟨known, _, rfl⟩⟩ := request_eq_ok.1 done
        · exact Std.TreeMap.getElem?_insert_self
        · exact known
    · cases accepted
  | _ => cases accepted

/-- A label keeps what it has; one that has nothing has what is accepted now. -/
theorem requests_after (turn : Turn) (label : Label) :
    turn.after.requests[label]? =
      (turn.before.requests[label]?).or (turn.accepted? label) := by
  cases known : turn.before.requests[label]? with
  | some existing =>
    exact (turn.before.advance_leads turn.operation).requests label existing known
  | none =>
    rw [Option.none_or]
    -- Nothing is accepted for the label: the ledger refused, or this turn was about something else.
    cases accepted : turn.accepted? label with
    | some wanted => exact after_accepted accepted
    | none =>
      obtain ⟨before, operation⟩ := turn
      show (before.advance operation).requests[label]? = none
      rcases done : before.answer operation with cause | ⟨said, next⟩
      · rw [advance_of_error done]
        exact known
      · rw [advance_of_ok done]
        cases operation with
        | request place wanted =>
          obtain ⟨⟨isNew, _⟩, asked, same⟩ := Outcome.map_eq_ok.1 done
          cases same
          have elsewhere : place ≠ label := by
            rintro rfl
            simp [accepted?, asked, Except.isOk, Except.toBool] at accepted
          obtain ⟨_, ⟨_, _, rfl⟩ | ⟨_, _, rfl⟩⟩ := request_eq_ok.1 asked
          · rw [Std.TreeMap.getElem?_insert, if_neg (by simpa using elsewhere)]
            exact known
          · exact known
        | allocate type =>
          obtain ⟨⟨slot, _⟩, granted, same⟩ := Outcome.map_eq_ok.1 done
          cases same
          obtain ⟨_, _, _, _, rfl⟩ := allocate_eq_ok.1 granted
          exact known
        | addHandler block =>
          obtain ⟨_, added, same⟩ := Outcome.map_eq_ok.1 done
          cases same
          obtain ⟨_, rfl⟩ := addHandler_eq_ok.1 added
          exact known
        | beginClose =>
          obtain ⟨_, begun, same⟩ := Outcome.map_eq_ok.1 done
          cases same
          obtain ⟨_, rfl⟩ := beginClose_eq_ok.1 begun
          exact known
        | reserve | finishClose =>
          cases done
          exact known

theorem reserved_after {maxLocals : UInt16} (reserves : turn.operation = .reserve maxLocals) :
    maxLocals.toNat ≤ turn.after.nextLocal.toNat := by
  rw [Turn.after, reserves]
  show _ ≤ (max turn.before.nextLocal maxLocals).toNat
  rw [toNat_max]
  exact Nat.le_max_right _ _

theorem closed_after (closes : turn.operation = .beginClose ∨ turn.operation = .finishClose) :
    turn.after.phase ≠ .open := by
  rcases closes with begins | finishes
  · rw [Turn.after, begins]
    rcases done : turn.before.answer .beginClose with cause | ⟨said, next⟩
    · rw [advance_of_error done]
      intro taken
      have begun : turn.before.beginClose = .ok _ := beginClose_eq_ok.2 ⟨taken, rfl⟩
      rw [answer, begun] at done
      cases done
    · rw [advance_of_ok done]
      obtain ⟨_, begun, same⟩ := Outcome.map_eq_ok.1 done
      cases same
      obtain ⟨_, rfl⟩ := beginClose_eq_ok.1 begun
      nofun
  · rw [Turn.after, finishes]
    nofun

end Turn

theorem exists_turn (ledger : Ledger) {operation : Operation} {operations : List Operation}
    (among : operation ∈ operations) : ∃ turn ∈ ledger.turns operations, turn.operation = operation := by
  induction operations generalizing ledger with
  | nil => cases among
  | cons first rest ih =>
    rcases List.mem_cons.1 among with rfl | later
    · exact ⟨_, List.mem_cons_self, rfl⟩
    · obtain ⟨turn, known, does⟩ := ih _ later
      exact ⟨turn, List.mem_cons_of_mem _ known, does⟩

/-- What was reserved at some time stays so. -/
theorem reserved_foldl (ledger : Ledger) {maxLocals : UInt16} {operations : List Operation}
    (among : .reserve maxLocals ∈ operations) :
    maxLocals ≤ (operations.foldl advance ledger).nextLocal := by
  obtain ⟨turn, known, reserves⟩ := exists_turn ledger among
  exact Nat.le_trans (Turn.reserved_after reserves) (turns_leads turn known).2.nextLocal

theorem requests_foldl (label : Label) (operations : List Operation) (ledger : Ledger) :
    (operations.foldl advance ledger).requests[label]? =
      (ledger.requests[label]?).or ((ledger.turns operations).findSome? (Turn.accepted? label)) := by
  induction operations generalizing ledger with
  | nil => exact (Option.or_none).symm
  | cons operation rest ih =>
    have step : (ledger.advance operation).requests[label]? = _ :=
      Turn.requests_after ⟨ledger, operation⟩ label
    rw [List.foldl_cons, ih, step, turns, List.findSome?_cons, Option.or_assoc]
    cases Turn.accepted? label ⟨ledger, operation⟩ <;> rfl

/-- What holds of a sequence of operations on the ledger of a method with so many locals. -/
structure Kept (maxLocals : UInt16) (operations : List Operation) : Prop where
  /-- Slots lie above the locals of the method and below the next free one, -/
  within : ∀ turn ∈ (new maxLocals).turns operations, ∀ type slot, turn.Grants type slot →
    maxLocals ≤ slot ∧
      slot.toNat + type.size ≤ (operations.foldl advance (new maxLocals)).nextLocal.toNat ∧
      (operations.foldl advance (new maxLocals)).nextLocal.toNat ≤ 0xFFFF
  /-- each of them above all earlier ones -/
  apart : ((new maxLocals).turns operations).Pairwise fun early late => ∀ type slot type' slot',
    early.Grants type slot → late.Grants type' slot' →
      slot < slot' ∧ slot.toNat + type.size ≤ slot'.toNat
  /-- and above the locals that were reserved by then. -/
  reserved : ((new maxLocals).turns operations).Pairwise fun early late =>
    ∀ locals type slot, early.operation = .reserve locals → late.Grants type slot → locals ≤ slot
  refused : ∀ turn ∈ (new maxLocals).turns operations, ∀ cause,
    turn.before.answer turn.operation = .error cause → turn.after = turn.before
  /-- The first accepted request at a label is recorded, -/
  recorded : ∀ label, (operations.foldl advance (new maxLocals)).requests[label]? =
    ((new maxLocals).turns operations).findSome? (Turn.accepted? label)
  /-- and later ones are compared with it. -/
  compared : ((new maxLocals).turns operations).Pairwise fun early late => ∀ label wanted other,
    early.accepted? label = some wanted → late.operation = .request label other →
      late.before.phase = .open →
      late.before.request label other =
        if wanted = other then .ok (false, late.before)
        else .error (.frameConflict label wanted other)
  /-- Nothing is done for a method that has begun to close. -/
  closed : ((new maxLocals).turns operations).Pairwise fun early late =>
    early.operation = .beginClose ∨ early.operation = .finishClose →
      late.operation.needsOpen = true →
      late.before.answer late.operation = .error (.methodClosed late.before.phase)

theorem kept (maxLocals : UInt16) (operations : List Operation) : Kept maxLocals operations := by
  -- Of two turns the later starts from a ledger that the earlier one led to.
  have pairwise := turns_pairwise (new maxLocals) operations
  refine ⟨?_, ?_, ?_, ?_, ?_, ?_, ?_⟩
  · intro turn among type slot grants
    obtain ⟨before, behind⟩ := turns_leads turn among
    obtain ⟨own, next, _⟩ := grants.next
    refine ⟨?_, next ▸ behind.nextLocal, Nat.le_of_lt_succ (UInt16.toNat_lt _)⟩
    rw [own]
    exact before.nextLocal
  · refine pairwise.imp fun leads type slot type' slot' grants grants' => ?_
    obtain ⟨_, next, some_⟩ := grants.next
    obtain ⟨own, _⟩ := grants'.next
    have above := leads.nextLocal
    rw [next, ← own] at above
    exact ⟨UInt16.lt_iff_toNat_lt.2 (by omega), above⟩
  · refine pairwise.imp fun leads locals type slot reserves grants => ?_
    rw [grants.next.1]
    exact Nat.le_trans (Turn.reserved_after reserves) leads.nextLocal
  · exact fun turn _ cause refused => advance_of_error refused
  · intro label
    rw [requests_foldl]
    rfl
  · refine pairwise.imp fun leads label wanted other accepted asks taken => ?_
    rw [request_of_open taken, leads.requests label wanted (Turn.after_accepted accepted)]
  · refine pairwise.imp fun leads closes needs => ?_
    exact answer_of_closed (leads.closed (Turn.closed_after closes)) _ needs

end Ledger

/-! ## The ledger of a method being rewritten -/

namespace MethodRewrite

/-- What an event means for the ledger. -/
def eventBookings (rewrite : MethodRewrite) : MethodEvent → List Ledger.Operation
  | .sizes _ maxLocals => [.reserve maxLocals]
  | .finish =>
    if !rewrite.hasCode then []
    else if rewrite.ledger.phase = .open then [.beginClose, .finishClose]
    else [.beginClose]
  | _ => []

def bookings (rewrite : MethodRewrite) : Action → List Ledger.Operation
  | .own event | .request (.event event) => rewrite.eventBookings event
  | .request (.slot type) | .request (.store type) => [.allocate type]
  | .request (.handler block) => [.addHandler block]
  | .request (.frame label wanted) =>
    if rewrite.group.contains label then [.request label wanted] else []
  | .request .label | .request (.fault _) => []

def allBookings : MethodRewrite → List Action → List Ledger.Operation
  | _, [] => []
  | rewrite, action :: rest => rewrite.bookings action ++ (rewrite.act action).allBookings rest

/-- Why a request was not granted, if it was not. -/
def refusal (rewrite : MethodRewrite) : Injection.Request → Option InstrumentError
  | .slot type => Outcome.cause? (rewrite.allocate type).1
  | .store type => Outcome.cause? (rewrite.storeNew type).1
  | .handler block => Outcome.cause? (rewrite.addHandler block).1
  | .frame label wanted => Outcome.cause? (rewrite.askFrame label wanted).1
  | .label | .event _ | .fault _ => none

variable (rewrite : MethodRewrite)

theorem ledger_eq_of_outline {after other : MethodRewrite} (same : after.outline = other.outline) :
    after.ledger = other.ledger :=
  show after.outline.ledger = other.outline.ledger by rw [same]

theorem ledger_placeLabel (label : Label) : (rewrite.placeLabel label).ledger = rewrite.ledger :=
  show (rewrite.placeLabel label).outline.ledger = _ by rw [outline_placeLabel]; rfl

theorem ledger_labelHere : rewrite.labelHere.2.ledger = rewrite.ledger := by
  cases group : rewrite.group with
  | cons label others => rw [labelHere_of_group rewrite group]
  | nil =>
    rw [labelHere_of_empty rewrite group]
    exact ledger_placeLabel _ _

theorem ledger_instruction (insn : Instruction) :
    (rewrite.instruction insn).ledger = rewrite.ledger := by
  by_cases taken : rewrite.ledger.phase = .open
  · have placed : (rewrite.position insn).2.ledger = rewrite.ledger := by
      unfold position
      split
      · rfl
      · split
        · exact rewrite.ledger_labelHere
        · rfl
    exact (congrArg MethodRewrite.ledger (rewrite.outline_instruction insn taken)).trans placed
  · unfold instruction
    rw [if_pos taken]
    rfl

theorem ledger_originalFrame (locals stack : List FrameType) :
    (rewrite.originalFrame locals stack).ledger = rewrite.ledger := by
  rcases rewrite.outline_originalFrame locals stack with ⟨_, same⟩ | ⟨_, frame, _, same⟩
  · rw [same]
  · exact (congrArg MethodRewrite.ledger same).trans rewrite.ledger_labelHere

theorem ledger_allocate (type : ValueType) :
    (rewrite.allocate type).2.ledger = rewrite.ledger.advance (.allocate type) := by
  refine (congrArg MethodRewrite.ledger (rewrite.outline_allocate type)).trans ?_
  unfold Ledger.advance Ledger.answer
  simp only
  cases rewrite.ledger.allocate type <;> rfl

theorem ledger_addHandler (block : TryBlock) :
    (rewrite.addHandler block).2.ledger = rewrite.ledger.advance (.addHandler block) := by
  refine (congrArg MethodRewrite.ledger (rewrite.outline_addHandler block)).trans ?_
  unfold Ledger.advance Ledger.answer
  simp only
  cases rewrite.ledger.addHandler block <;> rfl

theorem ledger_storeNew (type : ValueType) :
    (rewrite.storeNew type).2.ledger = (rewrite.allocate type).2.ledger := by
  rw [storeNew_eq]
  split
  · exact ledger_instruction _ _
  · rfl

/-- A frame granted at a label that stands here is booked, and nothing else is. -/
theorem ledger_askFrame (label : Label) (wanted : FrameRequest) :
    (rewrite.askFrame label wanted).2.ledger =
      if rewrite.group.contains label then rewrite.ledger.advance (.request label wanted)
      else rewrite.ledger := by
  refine (ledger_eq_of_outline (rewrite.outline_askFrame label wanted)).trans ?_
  unfold requestFrame
  split
  · rename_i cause shut
    split
    · have refused : rewrite.ledger.answer (.request label wanted) = .error cause := by
        unfold Ledger.answer Ledger.request
        rw [shut]
        rfl
      exact (Ledger.advance_of_error refused).symm
    · rfl
  · simp only
    split
    · rename_i elsewhere
      rw [if_neg (by simpa using elsewhere)]
    · rename_i here
      rw [if_pos (by simpa using here)]
      unfold Ledger.advance Ledger.answer
      simp only
      cases asked : rewrite.ledger.request label wanted with
      | error => rfl
      | ok answer =>
        obtain ⟨_ | _, ledger⟩ := answer
        · obtain ⟨_, ⟨_, same, _⟩ | ⟨_, _, rfl⟩⟩ := Ledger.request_eq_ok.1 asked
          · cases same
          · rfl
        · obtain ⟨frame, _, granted⟩ := outline_grantFrame
            { rewrite with injected := true, ledger := ledger } label wanted
          exact congrArg MethodRewrite.ledger granted

theorem ledger_step (event : MethodEvent) :
    (rewrite.step event).ledger = (rewrite.eventBookings event).foldl Ledger.advance rewrite.ledger := by
  cases event with
  | frame locals stack => exact rewrite.ledger_originalFrame locals stack
  | label label => exact rewrite.ledger_placeLabel label
  | insn insn => exact rewrite.ledger_instruction insn
  | finish =>
    show rewrite.close.ledger = _
    unfold close eventBookings
    split
    · rfl
    · split
      · rename_i cause refused
        -- Only a ledger that is not open any more refuses to be closed, and that one books nothing.
        have shut : rewrite.ledger.phase ≠ .open := by
          intro taken
          have begun : rewrite.ledger.beginClose = .ok _ := Ledger.beginClose_eq_ok.2 ⟨taken, rfl⟩
          rw [begun] at refused
          cases refused
        have still := Ledger.answer_of_closed shut .beginClose rfl
        rw [if_neg shut]
        exact (Ledger.advance_of_error still).symm
      · rename_i ledger begun
        obtain ⟨taken, _⟩ := Ledger.beginClose_eq_ok.1 begun
        have whole : rewrite.ledger.answer .beginClose = .ok (.done, ledger) :=
          Outcome.map_eq_ok.2 ⟨_, begun, rfl⟩
        rw [if_pos taken, List.foldl_cons, Ledger.advance_of_ok whole]
        simp only
        split <;> rfl
  | sizes | maxs | line | tryBlock | «variable» => rfl

theorem ledger_act (action : Action) :
    (rewrite.act action).ledger = (rewrite.bookings action).foldl Ledger.advance rewrite.ledger := by
  cases action with
  | own event => exact rewrite.ledger_step event
  | request request =>
    cases request with
    | label | fault => rfl
    | event event => exact ledger_step { rewrite with injected := true } event
    | slot type => exact rewrite.ledger_allocate type
    | store type => exact (rewrite.ledger_storeNew type).trans (rewrite.ledger_allocate type)
    | handler block => exact rewrite.ledger_addHandler block
    | frame label wanted =>
      refine (rewrite.ledger_askFrame label wanted).trans ?_
      simp only [bookings]
      split <;> rfl

/-- Whatever happens to a method, its ledger is where a sequence of operations leads to. -/
theorem ledger_run (actions : List Action) : ∀ rewrite : MethodRewrite,
    (actions.foldl act rewrite).ledger =
      (rewrite.allBookings actions).foldl Ledger.advance rewrite.ledger := by
  induction actions with
  | nil => exact fun _ => rfl
  | cons action rest ih =>
    intro rewrite
    rw [List.foldl_cons, ih, ledger_act, allBookings, List.foldl_append]

theorem allBookings_of_mem {action : Action} {actions : List Action} (among : action ∈ actions) :
    ∀ rewrite : MethodRewrite, ∃ reached : MethodRewrite,
      ∀ operation ∈ reached.bookings action, operation ∈ rewrite.allBookings actions := by
  induction actions with
  | nil => cases among
  | cons first rest ih =>
    intro rewrite
    rcases List.mem_cons.1 among with rfl | later
    · exact ⟨rewrite, fun _ booked => List.mem_append_left _ booked⟩
    · obtain ⟨reached, booked⟩ := ih later (rewrite.act first)
      exact ⟨reached, fun operation own => List.mem_append_right _ (booked operation own)⟩

/-- A request that is refused leaves the ledger as it is. -/
theorem ledger_of_refusal {request : Injection.Request} {cause : InstrumentError}
    (refused : rewrite.refusal request = some cause) :
    (rewrite.perform request).ledger = rewrite.ledger := by
  have slot {type : ValueType} (refused : Outcome.cause? (rewrite.allocate type).1 = some cause) :
      (rewrite.allocate type).2.ledger = rewrite.ledger := by
    simp only [allocate] at refused ⊢
    cases given : rewrite.ledger.allocate type with
    | error => rfl
    | ok =>
      rw [given] at refused
      cases refused
  cases request with
  | label | event | fault => cases refused
  | slot type => exact slot refused
  | store type =>
    refine (rewrite.ledger_storeNew type).trans (slot ?_)
    simp only [refusal, storeNew] at refused
    rcases answer : rewrite.allocate type with ⟨_ | taken, reached⟩
    all_goals rw [answer] at refused
    · exact refused
    · cases refused
  | handler block =>
    simp only [refusal, addHandler] at refused
    simp only [perform, addHandler]
    cases added : rewrite.ledger.addHandler block with
    | error => rfl
    | ok =>
      rw [added] at refused
      cases refused
  | frame label wanted =>
    refine (rewrite.ledger_askFrame label wanted).trans ?_
    split
    · rename_i here
      simp only [refusal, askFrame, requestFrame] at refused
      -- The label stands here, so it is the ledger that has refused.
      cases asked : rewrite.ledger.request label wanted with
      | error cause =>
        have whole : rewrite.ledger.answer (.request label wanted) = .error cause := by
          unfold Ledger.answer
          simp only [asked]
          rfl
        exact Ledger.advance_of_error whole
      | ok answer =>
        have taken := (Ledger.request_eq_ok.1 asked).1
        have opened : rewrite.ledger.ensureOpen = .ok () := Ledger.ensureOpen_eq_ok.2 taken
        obtain ⟨_ | _, ledger⟩ := answer
        all_goals
          simp only [opened, here, asked] at refused
          cases refused
    · rfl

/-! ## The declared local variables -/

/-- The two sizes stand at the start of an encoded body, whatever is found for its tables. -/
theorem sizes_of_encode {assembled : AssembledCode} {maxStack maxLocals : UInt16}
    {handlers : List HandlerEntry} {frames : Option (List PinnedFrame)} {declared : List Variable}
    {pool after : ConstantPool} {payload : Bytes}
    (done : assembled.encode maxStack maxLocals handlers frames declared pool =
      (.ok payload, after)) :
    ∃ others, payload = Bytes.u2 maxStack ++ Bytes.u2 maxLocals ++ others := by
  obtain ⟨stackMap, _, _, done⟩ := Interning.bind_eq_ok.1 done
  obtain ⟨lines, _, _, done⟩ := Interning.bind_eq_ok.1 done
  obtain ⟨lineTable, _, _, done⟩ := Interning.bind_eq_ok.1 done
  obtain ⟨rows, _, _, done⟩ := Interning.bind_eq_ok.1 done
  obtain ⟨plain, _, _, done⟩ := Interning.bind_eq_ok.1 done
  obtain ⟨typed, _, _, done⟩ := Interning.bind_eq_ok.1 done
  cases done
  simp only [List.append_assoc]
  exact ⟨_, rfl⟩

theorem sizes_of_serialize {pool after : ConstantPool} {payload : Bytes}
    (done : rewrite.serialize pool = (.ok payload, after)) : ∃ others,
    payload = Bytes.u2 rewrite.finalMaxStack ++ Bytes.u2 rewrite.finalMaxLocals ++ others := by
  obtain ⟨assembled, _, _, done⟩ := Interning.bind_eq_ok.1 done
  obtain ⟨original, _, _, done⟩ := Interning.bind_eq_ok.1 done
  obtain ⟨injected, _, _, done⟩ := Interning.bind_eq_ok.1 done
  exact sizes_of_encode done

theorem le_finalMaxLocals : rewrite.ledger.nextLocal ≤ rewrite.finalMaxLocals ∧
    rewrite.originalMaxLocals ≤ rewrite.finalMaxLocals := by
  simp only [UInt16.le_iff_toNat_le, finalMaxLocals, Ledger.toNat_max]
  omega

/-- What a run over a method makes of its ledger. -/
structure Booked (target : RewriteTarget) (method : MethodContext) (actions : List Action)
    (reached : MethodRewrite) : Prop where
  ledger : reached.ledger = ((start target method).allBookings actions).foldl Ledger.advance
    (Ledger.new (start target method).ledger.nextLocal)
  refused : ∀ request cause, reached.refusal request = some cause →
    (reached.perform request).ledger = reached.ledger
  /-- The new code declares all slots below the next free one and all that the method had. -/
  declared : ∀ pool payload after, reached.serialize pool = (.ok payload, after) →
    ∃ maxStack maxLocals others,
      payload = Bytes.u2 maxStack ++ Bytes.u2 maxLocals ++ others ∧
        reached.ledger.nextLocal ≤ maxLocals ∧ reached.originalMaxLocals ≤ maxLocals ∧
        ∀ depth locals, .own (.sizes depth locals) ∈ actions → locals ≤ maxLocals

theorem booked (target : RewriteTarget) (method : MethodContext) (actions : List Action) :
    Booked target method actions (actions.foldl act (start target method)) := by
  have run := ledger_run actions (start target method)
  refine ⟨run, fun request cause => ledger_of_refusal _, ?_⟩
  intro pool payload after done
  obtain ⟨others, whole⟩ := sizes_of_serialize _ done
  obtain ⟨next, original⟩ := le_finalMaxLocals (actions.foldl act (start target method))
  refine ⟨_, _, others, whole, next, original, fun depth locals told => ?_⟩
  obtain ⟨_, booked⟩ := allBookings_of_mem told (start target method)
  have reserved := Ledger.reserved_foldl (start target method).ledger
    (booked (.reserve locals) List.mem_cons_self)
  rw [← run] at reserved
  exact Nat.le_trans reserved next

/-- **What a ledger has handed out, recorded or shut stays so**, over any sequence of operations;
the ledger of a rewrite is one of them, and the locals that the new code declares take in all of
its slots. -/
theorem ledger_kept (target : RewriteTarget) (method : MethodContext) (actions : List Action) :
    (∀ maxLocals operations, Ledger.Kept maxLocals operations) ∧
      Booked target method actions (actions.foldl act (start target method)) :=
  ⟨Ledger.kept, booked target method actions⟩

end MethodRewrite

end ClassWeave
