import IronDrive.DownloadRoutes
import IronDrive.InterleavedRights
import IronDrive.TreeWalkers

/-! The life of an integrity event: it is recorded, listed to the owner of its library, and acknowledged. The requests
that do so run beside each other and beside everything else, and any of their statements may fail. -/

namespace IronDrive

open Lib

inductive EventCall
  | insert (row : EventInsert)
  | list (targetType targetId : String)
  | listUnacknowledged (targetType targetId : String)
  | acknowledge (eventId : String)

def EventCall.Answer : EventCall → Type
  | insert _ => Except SqlError IntegrityEvent
  | list _ _ | listUnacknowledged _ _ => Except SqlError (List IntegrityEvent)
  | acknowledge _ => Except SqlError Nat

abbrev eventTableSignature : Signature := ⟨EventCall, EventCall.Answer⟩

namespace EventLog

/-- `ORDER BY acknowledged ASC, created_at DESC` -/
def newestFirst (first second : IntegrityEvent) : Bool :=
  first.acknowledged < second.acknowledged ∨
    first.acknowledged = second.acknowledged ∧ second.createdAt ≤ first.createdAt

def ofTarget (rows : List IntegrityEvent) (targetType targetId : String) : List IntegrityEvent :=
  (rows.filter fun row => row.targetType = targetType ∧ row.targetId = targetId).mergeSort newestFirst

/-- `WHERE id = ? AND acknowledged = 0` -/
def isOpen (eventId : String) (row : IntegrityEvent) : Bool := row.id = eventId ∧ row.acknowledged = 0

def acknowledge (eventId : String) (row : IntegrityEvent) : IntegrityEvent :=
  if isOpen eventId row then { row with acknowledged := 1 } else row

end EventLog

open EventLog

/-- The handler of the statements on the table of events. -/
def eventTableHandler (draws : Nat → EventDraw) : Handler eventTableSignature EventLog := fun op log =>
  match op with
  | .insert row => eventHandler draws row log
  | .list targetType targetId =>
      (match (draws log.tick).fault with
        | some message => .error ⟨message⟩
        | none => .ok (ofTarget log.rows targetType targetId), ⟨log.rows, log.tick + 1⟩)
  | .listUnacknowledged targetType targetId =>
      (match (draws log.tick).fault with
        | some message => .error ⟨message⟩
        | none => .ok ((ofTarget log.rows targetType targetId).filter (·.acknowledged = 0)), ⟨log.rows, log.tick + 1⟩)
  | .acknowledge eventId =>
      match (draws log.tick).fault with
      | some message => (.error ⟨message⟩, ⟨log.rows, log.tick + 1⟩)
      | none =>
          (.ok (log.rows.filter (isOpen eventId)).length, ⟨log.rows.map (EventLog.acknowledge eventId), log.tick + 1⟩)

abbrev integritySignature : Signature := serviceSignature.sum eventTableSignature

abbrev IntegrityProgram (α : Type) : Type 1 := Program integritySignature AppError α

/-- The calls a request has made, with their answers. -/
abbrev IntegrityLog : Type 1 := List (Event integritySignature)

def integrityHandler (oracle : Nat → Choice) (dbOracle : Nat → Option String) (draws : Nat → EventDraw) :
    Handler integritySignature (Site × EventLog) :=
  Program.sumHandler (serviceHandler oracle dbOracle) (eventTableHandler draws)

namespace IntegrityService

/-- `record_event`, as any scan calls it. -/
def record (row : EventInsert) : IntegrityProgram IntegrityEvent := do
  let answer ← Program.inr (Program.ask (S := eventTableSignature) (.insert row))
  Program.ofExcept ((answer : Except SqlError IntegrityEvent).mapError AppError.sqlx)

def listEvents (targetType targetId : String) : IntegrityProgram (List IntegrityEvent) := do
  let answer ← Program.inr (Program.ask (S := eventTableSignature) (.list targetType targetId))
  Program.ofExcept ((answer : Except SqlError (List IntegrityEvent)).mapError AppError.sqlx)

def listUnacknowledged (targetType targetId : String) : IntegrityProgram (List IntegrityEvent) := do
  let answer ← Program.inr (Program.ask (S := eventTableSignature) (.listUnacknowledged targetType targetId))
  Program.ofExcept ((answer : Except SqlError (List IntegrityEvent)).mapError AppError.sqlx)

/-- Mark an event as acknowledged; whether the row was updated. -/
def acknowledgeEvent (eventId : String) : IntegrityProgram Bool := do
  let answer ← Program.inr (Program.ask (S := eventTableSignature) (.acknowledge eventId))
  let count ← Program.ofExcept ((answer : Except SqlError Nat).mapError AppError.sqlx)
  return 0 < count

end IntegrityService

structure AcknowledgeResponse where
  acknowledged : Bool
  message : String

namespace IntegrityRoutes

def listEvents (userId : String) : IntegrityProgram (List IntegrityEvent) := do
  let lib ← (requireLibrary userId).inl
  IntegrityService.listEvents "library" lib.id

def acknowledgeEvent (userId id : String) : IntegrityProgram AcknowledgeResponse := do
  let lib ← (requireLibrary userId).inl
  -- Verify the event belongs to this user's library before acknowledging.
  let events ← IntegrityService.listEvents "library" lib.id
  if !events.any (·.id = id) then Program.fail .notFound
  else
    let acked ← IntegrityService.acknowledgeEvent id
    return ⟨acked, if acked then "Event acknowledged." else "Event was already acknowledged or not found."⟩

def notifications (userId : String) : IntegrityProgram (Nat × List IntegrityEvent) := do
  let lib ← (requireLibrary userId).inl
  let events ← IntegrityService.listUnacknowledged "library" lib.id
  return (events.length, events)

def adminListEvents (targetType targetId : Option String) : IntegrityProgram (List IntegrityEvent) := do
  let tType := targetType.getD "library"
  let tId := targetId.getD ""
  if tId = "" then Program.fail (.validation "target_id is required")
  else IntegrityService.listEvents tType tId

end IntegrityRoutes

inductive IntegrityRequest
  | service (request : Request)
  | record (row : EventInsert)
  | listEvents (userId : String)
  | acknowledge (userId eventId : String)
  | notifications (userId : String)
  | adminListEvents (targetType targetId : Option String)

inductive IntegrityReply
  | served
  | recorded (event : IntegrityEvent)
  | events (events : List IntegrityEvent)
  | acknowledged (response : AcknowledgeResponse)
  | notified (count : Nat) (events : List IntegrityEvent)

def IntegrityRequest.program (backend : Backend) : IntegrityRequest → IntegrityProgram IntegrityReply
  | .service request => do
      (request.program backend).inl
      return .served
  | .record row => do
      let event ← IntegrityService.record row
      return .recorded event
  | .listEvents userId => do
      let events ← IntegrityRoutes.listEvents userId
      return .events events
  | .acknowledge userId eventId => do
      let response ← IntegrityRoutes.acknowledgeEvent userId eventId
      return .acknowledged response
  | .notifications userId => do
      let (count, events) ← IntegrityRoutes.notifications userId
      return .notified count events
  | .adminListEvents targetType targetId => do
      let events ← IntegrityRoutes.adminListEvents targetType targetId
      return .events events

namespace EventLog

/-- The rows under an id. It is a primary key, so there is one at most. -/
def keyed (rows : List IntegrityEvent) (eventId : String) : List IntegrityEvent := rows.filter (·.id = eventId)

theorem acknowledge_id (eventId : String) (row : IntegrityEvent) : (acknowledge eventId row).id = row.id := by
  unfold acknowledge
  split <;> rfl

theorem keyed_insert {rows : List IntegrityEvent} {event row : IntegrityEvent} {eventId : String}
    (h : keyed rows eventId = [row]) (hfresh : event.id ∉ rows.map IntegrityEvent.id) :
    keyed (rows ++ [event]) eventId = [row] := by
  have hmem : row ∈ keyed rows eventId := by
    rw [h]
    exact List.mem_singleton_self row
  obtain ⟨hrow, hid⟩ := List.mem_filter.mp hmem
  have hne : event.id ≠ eventId := by
    intro heq
    exact hfresh (List.mem_map.mpr ⟨row, hrow, (of_decide_eq_true hid).trans heq.symm⟩)
  unfold keyed at h ⊢
  rw [List.filter_append, h, List.filter_singleton, decide_eq_false hne]
  rfl

theorem keyed_acknowledge (rows : List IntegrityEvent) (acknowledged eventId : String) :
    keyed (rows.map (acknowledge acknowledged)) eventId = (keyed rows eventId).map (acknowledge acknowledged) := by
  unfold keyed
  rw [List.filter_map]
  congr 2
  funext row
  rw [Function.comp_apply, acknowledge_id]

theorem open_eq (rows : List IntegrityEvent) (eventId : String) :
    rows.filter (isOpen eventId) = (keyed rows eventId).filter (·.acknowledged = 0) := by
  unfold keyed
  rw [List.filter_filter]
  congr 1
  funext row
  simp only [isOpen, Bool.decide_and, Bool.and_comm]

theorem mem_ofTarget {rows : List IntegrityEvent} {targetType targetId : String} {row : IntegrityEvent} :
    row ∈ ofTarget rows targetType targetId ↔ row ∈ rows ∧ row.targetType = targetType ∧ row.targetId = targetId := by
  rw [ofTarget, List.mem_mergeSort, List.mem_filter, decide_eq_true_iff]

end EventLog

/-- A listing that is answered has read the table. -/
theorem events_of_answer {draws : Nat → EventDraw} {log : EventLog} {targetType targetId : String}
    {events : List IntegrityEvent}
    (h : (eventTableHandler draws (.list targetType targetId) log).1 =
      (.ok events : Except SqlError (List IntegrityEvent))) : events = ofTarget log.rows targetType targetId := by
  simp only [eventTableHandler] at h
  split at h
  · cases h
  · exact (Except.ok.inj h).symm

/-- The statement that marks the event has updated a row. -/
def Marks (eventId : String) (event : Event integritySignature) : Prop :=
  ∃ count, 0 < count ∧ event = ⟨.inr (.acknowledge eventId), (Except.ok count : Except SqlError Nat)⟩

/-- A statement leaves the row of an event as it is, or it is the one that marks it. -/
theorem keyed_after_call (draws : Nat → EventDraw) (call : EventCall) (log : EventLog) (row : IntegrityEvent)
    (h : keyed log.rows row.id = [row]) :
    keyed (eventTableHandler draws call log).2.rows row.id = [row] ∧
        ¬ Marks row.id ⟨.inr call, (eventTableHandler draws call log).1⟩ ∨
      call = .acknowledge row.id ∧ row.acknowledged = 0 ∧
        Marks row.id ⟨.inr call, (eventTableHandler draws call log).1⟩ ∧
        keyed (eventTableHandler draws call log).2.rows row.id = [{ row with acknowledged := 1 }] := by
  cases call with
  | insert insert =>
      refine Or.inl ⟨?_, by rintro ⟨count, -, heq⟩; cases heq⟩
      simp only [eventTableHandler, eventHandler]
      cases (draws log.tick).fault with
      | some message => exact h
      | none =>
          dsimp only
          split
          · exact h
          · exact keyed_insert h ‹_›
  | list targetType targetId => exact Or.inl ⟨h, by rintro ⟨count, -, heq⟩; cases heq⟩
  | listUnacknowledged targetType targetId => exact Or.inl ⟨h, by rintro ⟨count, -, heq⟩; cases heq⟩
  | acknowledge eventId =>
      simp only [eventTableHandler]
      cases (draws log.tick).fault with
      | some message => exact Or.inl ⟨h, by rintro ⟨count, -, heq⟩; cases heq⟩
      | none =>
          dsimp only
          rw [keyed_acknowledge, h, List.map_singleton]
          by_cases hopen : eventId = row.id ∧ row.acknowledged = 0
          · obtain ⟨rfl, hzero⟩ := hopen
            refine Or.inr ⟨rfl, hzero, ⟨1, Nat.one_pos, ?_⟩, ?_⟩
            · rw [open_eq, h, List.filter_singleton, decide_eq_true hzero]
              rfl
            · rw [acknowledge, isOpen, decide_eq_true ⟨rfl, hzero⟩]
              rfl
          · have hsame : acknowledge eventId row = row := by
              rw [acknowledge, isOpen, decide_eq_false fun hrow => hopen ⟨hrow.1.symm, hrow.2⟩]
              rfl
            refine Or.inl ⟨by rw [hsame], ?_⟩
            rintro ⟨count, hcount, heq⟩
            cases heq
            rw [open_eq, h, List.filter_singleton, decide_eq_false fun hzero => hopen ⟨rfl, hzero⟩] at hcount
            exact absurd hcount (Nat.lt_irrefl 0)

section Requests

variable {backend : Backend} {request : IntegrityRequest} {log : IntegrityLog} {userId eventId : String}

/-- A statement of the log has marked the event. -/
def Marked (eventId : String) (log : IntegrityLog) : Prop := ∃ event ∈ log, Marks eventId event

/-- The log shows that the event was listed for the library of the user. -/
def Vouched (userId eventId : String) (log : IntegrityLog) : Prop :=
  ∃ (lib : PersonalLibrary) (events : List IntegrityEvent), events.any (·.id = eventId) = true ∧
    ⟨.inl (.inr (.select fun db => db.findLibraryByUser userId)),
      (Except.ok (some lib) : Except SqlError (Option PersonalLibrary))⟩ ∈ log ∧
    ⟨.inr (.list "library" lib.id), (Except.ok events : Except SqlError (List IntegrityEvent))⟩ ∈ log

/-- The request has ended in the answer that it acknowledged the event. -/
def Acknowledges (eventId : String) (request : IntegrityRequest) (program : IntegrityProgram IntegrityReply) : Prop :=
  ∃ userId response, request = .acknowledge userId eventId ∧ program = .done (.acknowledged response) ∧
    response.acknowledged = true

/-- A request marks nothing but the event it was asked to mark, at its end, and only after it was listed. -/
def Permitted (request : IntegrityRequest) (op : integritySignature.Op) (log : IntegrityLog) : Prop :=
  (∀ eventId, ¬ Marked eventId log) ∧
    ∀ eventId, op = .inr (.acknowledge eventId) →
      ∃ userId, request = .acknowledge userId eventId ∧ Vouched userId eventId log

def Concluded (request : IntegrityRequest) (result : Except AppError IntegrityReply)
    (log : IntegrityLog) : Prop :=
  ∀ eventId, Marked eventId log ↔ Acknowledges eventId request (Program.ofExcept result)

/-- The call marks no event. -/
def Unmarking (op : integritySignature.Op) : Prop := ∀ eventId, op ≠ .inr (.acknowledge eventId)

theorem marked_snoc {event : Event integritySignature} :
    Marked eventId (log ++ [event]) ↔ Marked eventId log ∨ Marks eventId event := by
  constructor
  · rintro ⟨found, hmem, hmarks⟩
    rcases List.mem_append.mp hmem with hold | hnew
    · exact Or.inl ⟨found, hold, hmarks⟩
    · rw [List.mem_singleton.mp hnew] at hmarks
      exact Or.inr hmarks
  · rintro (⟨found, hold, hmarks⟩ | hmarks)
    · exact ⟨found, List.mem_append_left _ hold, hmarks⟩
    · exact ⟨event, List.mem_append_right _ (List.mem_singleton_self _), hmarks⟩

theorem not_marked_nil : ¬ Marked eventId [] := by
  rintro ⟨event, hmem, -⟩
  cases hmem

theorem Unmarking.not_marked_snoc {op : integritySignature.Op} (hop : Unmarking op)
    (answer : integritySignature.Answer op) (h : ¬ Marked eventId log) : ¬ Marked eventId (log ++ [⟨op, answer⟩]) := by
  rw [marked_snoc]
  rintro (hold | ⟨count, -, heq⟩)
  · exact h hold
  · exact hop eventId (congrArg Sigma.fst heq)

theorem unmarking_permitted {op : integritySignature.Op} (hop : Unmarking op) (h : ∀ eventId, ¬ Marked eventId log) :
    Permitted request op log :=
  ⟨h, fun eventId heq => absurd heq (hop eventId)⟩

theorem concluded_of_unmarking {program : IntegrityProgram IntegrityReply}
    (hop : program.Only Unmarking fun _ => True) (hrequest : ∀ userId eventId, request ≠ .acknowledge userId eventId) :
    program.Guarded Program.Notes (Permitted request) [] (Concluded request) := by
  refine (Program.Only.keeps (I := fun log => ∀ eventId, ¬ Marked eventId log) hop (fun _ => not_marked_nil)
    (fun op log hop hlog => unmarking_permitted hop hlog)
    (fun op answer log hop hlog eventId => hop.not_marked_snoc answer (hlog eventId))).mono ?_
  intro result log hlog eventId
  refine iff_of_false (hlog eventId) ?_
  rintro ⟨userId, response, heq, -⟩
  exact hrequest userId eventId heq

theorem unmarking_inl {α : Type} (program : ServiceProgram α) :
    (program.inl : IntegrityProgram α).Only Unmarking fun _ => True := by
  refine (Program.Only.inl (N := fun _ => False) (Program.only_true program)).mono ?_ fun _ _ => trivial
  intro op hop eventId heq
  subst heq
  exact hop

theorem unmarking_ask {call : EventCall} (h : ∀ eventId, call ≠ .acknowledge eventId) :
    (Program.inr (Program.ask (S := eventTableSignature) call) : IntegrityProgram _).Only Unmarking fun _ => True :=
  ⟨fun eventId heq => h eventId (Sum.inr.inj heq), fun _ => trivial⟩

theorem concluded_failed {error : AppError} (h : ∀ eventId, ¬ Marked eventId log) :
    Concluded request (.error error) log := by
  intro eventId
  refine iff_of_false (h eventId) ?_
  rintro ⟨userId, response, -, heq, -⟩
  cases heq

theorem concluded_updated {count : Nat} {message : String} (h : ∀ id, ¬ Marked id log) :
    Concluded (.acknowledge userId eventId) (.ok (.acknowledged ⟨0 < count, message⟩))
      (log ++ [⟨.inr (.acknowledge eventId), (Except.ok count : Except SqlError Nat)⟩]) := by
  intro id
  rw [marked_snoc]
  constructor
  · rintro (hold | ⟨found, hfound, heq⟩)
    · exact absurd hold (h id)
    · cases heq
      exact ⟨userId, _, rfl, rfl, decide_eq_true hfound⟩
  · rintro ⟨user, response, hrequest, hresult, hupdated⟩
    cases hrequest
    cases Program.done.inj hresult
    exact Or.inr ⟨count, of_decide_eq_true hupdated, rfl⟩

theorem acknowledge_concluded (backend : Backend) (userId eventId : String) :
    ((IntegrityRequest.acknowledge userId eventId).program backend).Guarded Program.Notes
      (Permitted (.acknowledge userId eventId)) [] (Concluded (.acknowledge userId eventId)) := by
  have hselect : Unmarking (.inl (.inr (.select fun db => db.findLibraryByUser userId))) := fun _ heq => by cases heq
  have hlist : ∀ id, Unmarking (.inr (.list "library" id)) := fun _ _ heq => by cases heq
  refine And.intro (unmarking_permitted hselect fun _ => not_marked_nil) ?_
  intro answer log' hnotes
  cases hnotes
  have hfound := fun id => hselect.not_marked_snoc answer (@not_marked_nil id)
  rcases answer with error | _ | lib
  · exact concluded_failed hfound
  · exact concluded_failed hfound
  refine And.intro (unmarking_permitted (hlist lib.id) hfound) ?_
  intro answer log' hnotes
  cases hnotes
  have hlisted := fun id => (hlist lib.id).not_marked_snoc answer (hfound id)
  rcases answer with error | events
  · exact concluded_failed hlisted
  -- The event is marked only if it is among those of the library.
  show Program.Guarded _ _ (Program.bind (if (!events.any fun event => event.id = eventId) = true then
    Program.fail AppError.notFound else _) _) _ _
  cases hany : events.any fun event => event.id = eventId with
  | false => exact concluded_failed hlisted
  | true =>
      refine And.intro ⟨hlisted, fun id heq => ?_⟩ ?_
      · cases heq
        exact ⟨userId, rfl, lib, events, hany, by simp, by simp⟩
      · intro answer log' hnotes
        cases hnotes
        rcases answer with error | count
        · refine concluded_failed fun id hmarked => ?_
          rcases marked_snoc.mp hmarked with hold | ⟨count, -, heq⟩
          · exact hlisted id hold
          · cases heq
        · exact concluded_updated hlisted

theorem unmarking_answer {α : Type} (answer : Except SqlError α) :
    (Program.ofExcept (answer.mapError AppError.sqlx) : IntegrityProgram α).Only Unmarking fun _ => True :=
  Program.only_ofExcept _

theorem request_concluded (backend : Backend) (request : IntegrityRequest) :
    (request.program backend).Guarded Program.Notes (Permitted request) [] (Concluded request) := by
  have hlist : ∀ targetType targetId, (IntegrityService.listEvents targetType targetId).Only Unmarking fun _ => True :=
    fun _ _ => (unmarking_ask fun _ heq => by cases heq).bind fun answer _ => unmarking_answer answer
  cases request with
  | acknowledge userId eventId => exact acknowledge_concluded backend userId eventId
  | service request =>
      refine concluded_of_unmarking ?_ fun _ _ heq => by cases heq
      exact (unmarking_inl _).bind fun _ _ => trivial
  | record row =>
      refine concluded_of_unmarking ?_ fun _ _ heq => by cases heq
      refine Program.Only.bind (R := fun _ => True) ?_ fun _ _ => trivial
      exact (unmarking_ask fun _ heq => by cases heq).bind fun answer _ => unmarking_answer answer
  | listEvents userId =>
      refine concluded_of_unmarking ?_ fun _ _ heq => by cases heq
      exact ((unmarking_inl _).bind fun lib _ => hlist "library" lib.id).bind fun _ _ => trivial
  | notifications userId =>
      refine concluded_of_unmarking ?_ fun _ _ heq => by cases heq
      refine Program.Only.bind (R := fun _ => True) ?_ fun _ _ => trivial
      refine (unmarking_inl _).bind fun lib _ => Program.Only.bind (R := fun _ => True) ?_ fun _ _ => trivial
      exact (unmarking_ask fun _ heq => by cases heq).bind fun answer _ => unmarking_answer answer
  | adminListEvents targetType targetId =>
      refine concluded_of_unmarking ?_ fun _ _ heq => by cases heq
      refine Program.Only.bind (R := fun _ => True) ?_ fun _ _ => trivial
      unfold IntegrityRoutes.adminListEvents
      dsimp only
      split
      · trivial
      · exact hlist _ _

/-- What the log of a request shows of its end. -/
theorem acknowledges_of_guarded {program : IntegrityProgram IntegrityReply}
    (h : program.Guarded Program.Notes (Permitted request) log (Concluded request)) (eventId : String) :
    Marked eventId log ↔ Acknowledges eventId request program := by
  cases program with
  | done value => exact h eventId
  | fail error => exact h eventId
  | call op next =>
      refine iff_of_false (h.1.1 eventId) ?_
      rintro ⟨userId, response, -, heq, -⟩
      cases heq

end Requests

/-! ### Every schedule -/

section Interleaving

variable {ι : Type} [DecidableEq ι] (backend : Backend) (requests : ι → IntegrityRequest) (oracle : Nat → Choice)
  (dbOracle : Nat → Option String) (draws : Nat → EventDraw) (site : Site) (log : EventLog)

/-- The requests, the site and the events after the turns of a schedule. -/
def serveIntegrity (schedule : List ι) : (ι → IntegrityProgram IntegrityReply) × Site × EventLog :=
  Pool.run (integrityHandler oracle dbOracle draws) schedule (fun i => (requests i).program backend) (site, log)

variable {backend requests oracle dbOracle draws site log} {schedule : List ι} {row : IntegrityEvent}

/-- The row is as it was and no request has marked it, or it is acknowledged and one request has marked it. -/
def Followed (requests : ι → IntegrityRequest) (row : IntegrityEvent) (rows : List IntegrityEvent)
    (logs : ι → IntegrityLog) : Prop :=
  keyed rows row.id = [row] ∧ (∀ i, ¬ Marked row.id (logs i)) ∨
    keyed rows row.id = [{ row with acknowledged := 1 }] ∧ ∃ i userId, requests i = .acknowledge userId row.id ∧
      Vouched userId row.id (logs i) ∧ ∀ j, Marked row.id (logs j) ↔ j = i

theorem Vouched.mono {log log' : IntegrityLog} {userId eventId : String}
    (h : Vouched userId eventId log) (hlog : log <+: log') : Vouched userId eventId log' := by
  obtain ⟨lib, events, hany, hfound, hlisted⟩ := h
  exact ⟨lib, events, hany, hlog.subset hfound, hlog.subset hlisted⟩

theorem vouched_update {logs : ι → IntegrityLog} {i j : ι} {event : Event integritySignature}
    {userId eventId : String} (h : Vouched userId eventId (logs i)) :
    Vouched userId eventId (Function.update logs j (logs j ++ [event]) i) := by
  by_cases hij : i = j
  · subst hij
    rw [Function.update_self]
    exact h.mono (List.prefix_append _ _)
  · rwa [Function.update_of_ne hij]

theorem marked_update {logs : ι → IntegrityLog} {i j : ι} {event : Event integritySignature}
    {eventId : String} (h : ¬ Marks eventId event) :
    Marked eventId (Function.update logs j (logs j ++ [event]) i) ↔ Marked eventId (logs i) := by
  by_cases hij : i = j
  · subst hij
    rw [Function.update_self, marked_snoc]
    exact or_iff_left h
  · rw [Function.update_of_ne hij]

/-- A call that marks no event leaves what is known of it. -/
theorem Followed.unmarked {rows : List IntegrityEvent} {logs : ι → IntegrityLog} {j : ι}
    {event : Event integritySignature} (h : Followed requests row rows logs) (hevent : ¬ Marks row.id event) :
    Followed requests row rows (Function.update logs j (logs j ++ [event])) := by
  rcases h with ⟨hrow, hnone⟩ | ⟨hrow, i, userId, hrequest, hvouched, hmarked⟩
  · exact Or.inl ⟨hrow, fun i => (marked_update hevent).not.mpr (hnone i)⟩
  · exact Or.inr ⟨hrow, i, userId, hrequest, vouched_update hvouched, fun k => (marked_update hevent).trans (hmarked k)⟩

theorem Followed.call {op : integritySignature.Op} {state : Site × EventLog}
    {logs : ι → IntegrityLog} {j : ι} (h : Followed requests row state.2.rows logs)
    (hpermitted : Permitted (requests j) op (logs j)) :
    Followed requests row (integrityHandler oracle dbOracle draws op state).2.2.rows
      (Function.update logs j (logs j ++ [⟨op, (integrityHandler oracle dbOracle draws op state).1⟩])) := by
  cases op with
  | inl op => exact h.unmarked (by rintro ⟨count, -, heq⟩; cases heq)
  | inr call =>
      rcases h with ⟨hrow, hnone⟩ | ⟨hrow, hsome⟩
      · rcases keyed_after_call draws call state.2 row hrow with
          ⟨hkept, hnot⟩ | ⟨rfl, -, hmarks, hmarked⟩
        · exact Followed.unmarked (Or.inl ⟨hkept, hnone⟩) hnot
        · obtain ⟨userId, hrequest, hvouched⟩ := hpermitted.2 row.id rfl
          refine Or.inr ⟨hmarked, j, userId, hrequest, vouched_update hvouched, fun k => ?_⟩
          by_cases hkj : k = j
          · subst hkj
            rw [Function.update_self, marked_snoc]
            exact iff_of_true (Or.inr hmarks) rfl
          · rw [Function.update_of_ne hkj]
            exact iff_of_false (hnone k) hkj
      · rcases keyed_after_call draws call state.2 { row with acknowledged := 1 } hrow with
          ⟨hkept, hnot⟩ | ⟨-, hopen, -⟩
        · exact Followed.unmarked (Or.inr ⟨hkept, hsome⟩) hnot
        · cases hopen

variable (backend requests oracle dbOracle draws site) in
/-- After any schedule each request has a log of its own turns, and these logs tell what has become of the row. -/
theorem followed_along (hrow : keyed log.rows row.id = [row]) (schedule : List ι) :
    ∃ logs : ι → IntegrityLog,
      (∀ i, Pool.Recalls (integrityHandler oracle dbOracle draws) (fun i => (requests i).program backend) (site, log)
        schedule i (logs i)) ∧
      Followed requests row (serveIntegrity backend requests oracle dbOracle draws site log schedule).2.2.rows logs ∧
      ∀ i, Marked row.id (logs i) ↔ Acknowledges row.id (requests i)
        ((serveIntegrity backend requests oracle dbOracle draws site log schedule).1 i) := by
  obtain ⟨logs, ⟨hrecalls, hfollowed⟩, hguarded⟩ := Pool.recalled
    (h := integrityHandler oracle dbOracle draws) (s := (site, log))
    (I := fun schedule logs =>
      Followed requests row (serveIntegrity backend requests oracle dbOracle draws site log schedule).2.2.rows logs)
    (fun i => request_concluded backend (requests i)) (Or.inl ⟨hrow, fun _ => not_marked_nil⟩)
    (fun before j op next logs hcase hpermitted _ hfollowed => by
      rw [serveIntegrity, Pool.run_call hcase]
      exact hfollowed.call hpermitted)
    (fun before j logs hstop hfollowed => by
      rw [serveIntegrity, Pool.run_stopped hstop]
      exact hfollowed) schedule
  exact ⟨logs, hrecalls, hfollowed, fun i => acknowledges_of_guarded (hguarded i) row.id⟩

omit [DecidableEq ι] in
theorem Followed.targets {rows : List IntegrityEvent} {logs : ι → IntegrityLog}
    (h : Followed requests row rows logs) {event : IntegrityEvent} (hmem : event ∈ rows) (hid : event.id = row.id) :
    event.targetType = row.targetType ∧ event.targetId = row.targetId := by
  have hkeyed : event ∈ keyed rows row.id := List.mem_filter.mpr ⟨hmem, decide_eq_true hid⟩
  rcases h with ⟨hrow, -⟩ | ⟨hrow, -⟩
  · rw [hrow] at hkeyed
    rw [List.mem_singleton.mp hkeyed]
    exact ⟨rfl, rfl⟩
  · rw [hrow] at hkeyed
    rw [List.mem_singleton.mp hkeyed]
    exact ⟨rfl, rfl⟩

end Interleaving

/-- Whatever else is served in between and whatever fails, an event stays as it was recorded until it is acknowledged.
Just one of the requests that try is then told so, and it is one of the user whose library the event is about. -/
theorem acknowledged_once {ι : Type} [DecidableEq ι] (backend : Backend) (requests : ι → IntegrityRequest)
    (oracle : Nat → Choice) (dbOracle : Nat → Option String) (draws : Nat → EventDraw) (site : Site) (log : EventLog)
    (row : IntegrityEvent) (hrow : keyed log.rows row.id = [row]) (schedule : List ι) :
    let reached := serveIntegrity backend requests oracle dbOracle draws site log
    keyed (reached schedule).2.2.rows row.id = [row] ∧
        (∀ i, ¬ Acknowledges row.id (requests i) ((reached schedule).1 i)) ∨
      keyed (reached schedule).2.2.rows row.id = [{ row with acknowledged := 1 }] ∧
        ∃ i userId earlier later lib, requests i = .acknowledge userId row.id ∧
          (∀ j, Acknowledges row.id (requests j) ((reached schedule).1 j) ↔ j = i) ∧
          schedule = earlier ++ i :: later ∧ (reached earlier).2.1.db.findLibraryByUser userId = some lib ∧
          row.targetType = "library" ∧ row.targetId = lib.id := by
  intro reached
  obtain ⟨logs, hrecalls, hfollowed, hends⟩ := followed_along backend requests oracle dbOracle draws site hrow schedule
  rcases hfollowed with ⟨hkept, hnone⟩ | ⟨hmarked, i, userId, hrequest, ⟨lib, events, hany, hfound, hlisted⟩, honly⟩
  · exact Or.inl ⟨hkept, fun i => (hends i).not.mp (hnone i)⟩
  obtain ⟨earlier, later, hschedule, hlibrary, -⟩ := hrecalls i _ hfound
  obtain ⟨before, -, -, hanswer, -⟩ := hrecalls i _ hlisted
  have hread : (serviceHandler oracle dbOracle (.inr (.select fun db => db.findLibraryByUser userId))
      (reached earlier).2.1).1 = (.ok (some lib) : Except SqlError (Option PersonalLibrary)) := hlibrary.symm
  refine Or.inr ⟨hmarked, i, userId, earlier, later, lib, hrequest, fun j => (hends j).symm.trans (honly j),
    hschedule, value_of_answer hread, ?_⟩
  obtain ⟨event, hmem, hid⟩ := List.any_eq_true.mp hany
  rw [events_of_answer hanswer.symm] at hmem
  obtain ⟨hstored, htype, htarget⟩ := mem_ofTarget.mp hmem
  obtain ⟨_, -, hthen, -⟩ := followed_along backend requests oracle dbOracle draws site hrow before
  obtain ⟨hsameType, hsameTarget⟩ := hthen.targets hstored (of_decide_eq_true hid)
  exact ⟨hsameType.symm.trans htype, hsameTarget.symm.trans htarget⟩

def sampleEvent : IntegrityEvent :=
  { id := "event", targetType := "library", targetId := "library", filePath := "docs/report.txt",
    eventType := "checksum_mismatch", details := some "File hash mismatch detected during background scan",
    detectedBy := "background_scan", acknowledged := 0, createdAt := "2026-01-01 00:00:00" }

/-- Alice has a library, and an event about it. She dismisses the event twice at once. -/
def sampleDismissals (schedule : List Bool) : (Bool → IntegrityProgram IntegrityReply) × Site × EventLog :=
  serveIntegrity sampleBackend (fun _ => .acknowledge "alice" "event") calmOracle (fun _ => none)
    (fun _ => ⟨"drawn", "2026-01-02 00:00:00", none⟩)
    (calmServeAll sampleBackend (firstSite ⟨.empty, 0⟩)
      [sampleRequest "" "alice" (.register [] "alice" "alice@example.com" "password"),
        sampleRequest "alice" "library" .setupLibrary]) ⟨[sampleEvent], 0⟩ schedule

theorem sampleDismissals_acknowledged :
    (keyed (sampleDismissals [true, false, true, false, false, true]).2.2.rows "event").map (·.acknowledged) = [1] := by
  decide +kernel

theorem acknowledged_once_dismissals :
    let schedule := [true, false, true, false, false, true]
    keyed (sampleDismissals schedule).2.2.rows "event" = [{ sampleEvent with acknowledged := 1 }] ∧
      ∃ i userId earlier later lib, .acknowledge "alice" "event" = IntegrityRequest.acknowledge userId "event" ∧
        (∀ j, Acknowledges "event" (.acknowledge "alice" "event") ((sampleDismissals schedule).1 j) ↔ j = i) ∧
        schedule = earlier ++ i :: later ∧ (sampleDismissals earlier).2.1.db.findLibraryByUser userId = some lib ∧
        sampleEvent.targetType = "library" ∧ sampleEvent.targetId = lib.id := by
  refine (acknowledged_once sampleBackend (fun _ => .acknowledge "alice" "event") calmOracle (fun _ => none)
    (fun _ => ⟨"drawn", "2026-01-02 00:00:00", none⟩) _ ⟨[sampleEvent], 0⟩ sampleEvent (by decide +kernel)
    _).resolve_left ?_
  rintro ⟨hrow, -⟩
  have hopen := congrArg (List.map IntegrityEvent.acknowledged) hrow
  rw [show sampleEvent.id = "event" from rfl] at hopen
  exact absurd (sampleDismissals_acknowledged.symm.trans hopen) (by decide +kernel)

end IronDrive
