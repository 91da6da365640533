import DocMapper.Command
import DocMapper.Proofs.Fields
/-!
# What commands send

An entry makes one call, or none if it has no text or does not compile. A run takes its entries in
turn: each call takes the next response, so which response an entry meets depends on how many entries
with text stand before it, and the first entry that fails is the last one that counts.
-/

namespace DocMapper

namespace Connection

/-- Nothing but these calls lies between two states of a connection. -/
structure Sends (conn conn' : Connection) (calls : List RecordedCall) : Prop where
  config : conn'.config = conn.config
  calls : conn'.transport.calls = conn.transport.calls ++ calls

theorem sends_nothing (conn : Connection) : conn.Sends conn [] :=
  ⟨rfl, (List.append_nil _).symm⟩

end Connection

namespace MemoryTransport

/-- The transport after some calls. They are recorded, and each took a response if there was one. -/
def after (t : MemoryTransport) (calls : List RecordedCall) : MemoryTransport :=
  ⟨t.calls ++ calls, t.responses.drop calls.length⟩

@[simp]
theorem after_nil (t : MemoryTransport) : t.after [] = t := by
  simp [after]

theorem after_append (t : MemoryTransport) (calls more : List RecordedCall) :
    t.after (calls ++ more) = (t.after calls).after more := by
  simp [after, List.drop_drop]

theorem call_eq (t : MemoryTransport) (kind : CallKind) (text : String) (options : ExecOptions) :
    t.call kind text options =
      (t.responses[0]?.getD (.ok []), t.after [⟨kind, text, options⟩]) := by
  unfold call after
  cases t.responses <;> rfl

theorem execute_eq (t : MemoryTransport) (text : String) (options : ExecOptions) :
    t.execute text options = (Except.map rawResult (t.responses[0]?.getD (.ok [])),
      t.after [⟨.execute, text, options⟩]) := by
  unfold execute
  rw [call_eq]

end MemoryTransport

/-! ### The calls of an entry -/

namespace CommandEntry

/-- The call that an entry makes as a query. One that does not compile makes none. -/
def queryCalls (config : Config) (options : Fields Json) (entry : CommandEntry) :
    List RecordedCall :=
  match entry.toSql config with
  | .ok finished => [⟨.query, finished.text, .ofSql finished options⟩]
  | .error _ => []

/-- The call that an entry makes as a command. One without text makes none either. -/
def executeCalls (config : Config) (options : Fields Json) (entry : CommandEntry) :
    List RecordedCall :=
  match entry.toSql config with
  | .ok finished =>
    if finished.isEmpty then [] else [⟨.execute, finished.text, .ofSql finished options⟩]
  | .error _ => []

/-- Whether there is anything to send: the entry compiles, to a text that is not empty. -/
def hasText (config : Config) (entry : CommandEntry) : Bool :=
  match entry.toSql config with
  | .ok finished => finished.text ≠ ""
  | .error _ => false

/-- The call that sends an entry: its text and parameters as compiled, and under each name the option
that the run gives, or else the entry's own. -/
structure Makes (config : Config) (options : Fields Json) (entry : CommandEntry)
    (call : RecordedCall) : Prop where
  kind : call.kind = .execute
  sent : ∃ finished, entry.toSql config = .ok finished ∧ call.text = finished.text ∧
    call.options.params = finished.params ∧
    ∀ name, Fields.get? call.options.extra name =
      (Fields.get? (Fields.ofList options) name).or (Fields.get? finished.options.extra name)

variable {config : Config} {options : Fields Json} {entry : CommandEntry}

theorem length_queryCalls_le (config : Config) (options : Fields Json) (entry : CommandEntry) :
    (entry.queryCalls config options).length ≤ 1 := by
  unfold queryCalls
  split <;> simp

theorem makes_ofSql {finished : Sql} (h : entry.toSql config = .ok finished) :
    entry.Makes config options ⟨.execute, finished.text, .ofSql finished options⟩ :=
  ⟨rfl, finished, h, rfl, rfl, Fields.get?_merge finished.options.extra options⟩

theorem makes_executeCalls : List.Forall₂ (Makes config options)
    ([entry].filter (·.hasText config)) (entry.executeCalls config options) := by
  unfold executeCalls
  cases h : entry.toSql config with
  | error e => simp [hasText, h]
  | ok finished =>
    by_cases htext : finished.text = ""
    · simp [hasText, h, htext, Sql.isEmpty]
    · simp [hasText, h, htext, Sql.isEmpty, makes_ofSql h]

theorem length_executeCalls :
    (entry.executeCalls config options).length = if entry.hasText config then 1 else 0 := by
  have hcalls : List.Forall₂ (Makes config options) ([entry].filter (·.hasText config))
    (entry.executeCalls config options) := makes_executeCalls
  rw [← hcalls.length_eq]
  cases h : entry.hasText config <;> simp [h]

theorem length_executeCalls_le (config : Config) (options : Fields Json) (entry : CommandEntry) :
    (entry.executeCalls config options).length ≤ 1 := by
  rw [length_executeCalls]
  split <;> omega

/-- Why a run ends at an entry, given the response that comes next. An entry without text takes no
response. -/
def failure? (config : Config) (next? : Option Response) (entry : CommandEntry) : Option Error :=
  match entry.toSql config, next? with
  | .error e, _ => some e
  | .ok finished, some (.error e) => if finished.text = "" then none else some e
  | .ok _, _ => none

end CommandEntry

namespace Command

/-! ### The first failure -/

/-- Why the entry at a place fails if none before it does. Each of those with text took a response. -/
def failureAt? (config : Config) (responses : List Response) (entries : List CommandEntry)
    (place : Nat) : Option Error :=
  let taken := (entries.take place).countP (·.hasText config)
  entries[place]?.bind (·.failure? config responses[taken]?)

def FailsFirst (config : Config) (responses : List Response) (entries : List CommandEntry)
    (place : Nat) (e : Error) : Prop :=
  failureAt? config responses entries place = some e ∧
    ∀ earlier < place, failureAt? config responses entries earlier = none

section Failure

variable {config : Config} {responses : List Response} {options : Fields Json}
  {entry : CommandEntry} {rest : List CommandEntry} {e : Error}

theorem failureAt?_succ (place : Nat) :
    failureAt? config responses (entry :: rest) (place + 1) =
      failureAt? config (responses.drop (entry.executeCalls config options).length) rest place := by
  unfold failureAt?
  rw [List.getElem?_cons_succ, List.take_succ_cons, List.countP_cons,
    CommandEntry.length_executeCalls, Nat.add_comm]
  simp only [List.getElem?_drop]

theorem failsFirst_zero (h : entry.failure? config responses[0]? = some e) :
    FailsFirst config responses (entry :: rest) 0 e :=
  ⟨h, fun _ hlt => absurd hlt (Nat.not_lt_zero _)⟩

/-- Behind an entry that does not fail the rest runs on what is left of the responses. -/
theorem FailsFirst.succ {place : Nat} (hfirst : entry.failure? config responses[0]? = none)
    (h : FailsFirst config (responses.drop (entry.executeCalls config options).length) rest place e) :
    FailsFirst config responses (entry :: rest) (place + 1) e := by
  obtain ⟨hfails, hbefore⟩ := h
  refine ⟨(failureAt?_succ place).trans hfails, fun earlier hlt => ?_⟩
  cases earlier with
  | zero => exact hfirst
  | succ earlier => exact (failureAt?_succ earlier).trans (hbefore earlier (by omega))

end Failure

/-! ### Runs -/

/-- What a run over some entries leaves and answers, when some were sent before: every entry with text
made its call, up to the first that failed if one did. -/
structure Logged (config : Config) (options : Fields Json) (sent : Nat)
    (entries : List CommandEntry) (t : MemoryTransport) (calls : List RecordedCall)
    (outcome : Except Error Nat × MemoryTransport) : Prop where
  transport : outcome.2 = t.after calls
  answer :
    (∃ place e, FailsFirst config t.responses entries place e ∧ outcome.1 = .error e ∧
      List.Forall₂ (CommandEntry.Makes config options)
        ((entries.take (place + 1)).filter (·.hasText config)) calls) ∨
    (∀ place, failureAt? config t.responses entries place = none) ∧
      outcome.1 = .ok (sent + calls.length) ∧
      List.Forall₂ (CommandEntry.Makes config options) (entries.filter (·.hasText config)) calls

section Run

variable {config : Config} {options : Fields Json} {sent : Nat} {entry : CommandEntry}
  {rest : List CommandEntry} {t : MemoryTransport}

/-- What a run does with its first entry. -/
theorem executeFrom_cons :
    executeFrom config options sent (entry :: rest) t =
      match entry.failure? config t.responses[0]? with
      | some e => (.error e, t.after (entry.executeCalls config options))
      | none => executeFrom config options (sent + (entry.executeCalls config options).length) rest
          (t.after (entry.executeCalls config options)) := by
  rw [executeFrom]
  unfold CommandEntry.failure? CommandEntry.executeCalls
  cases entry.toSql config with
  | error e => simp
  | ok finished =>
    by_cases htext : finished.text = ""
    · have hempty : finished.isEmpty = true := by simp [Sql.isEmpty, htext]
      cases t.responses[0]? with
      | none => simp [hempty]
      | some response => cases response <;> simp [hempty, htext]
    · have hempty : finished.isEmpty = false := by simpa [Sql.isEmpty] using htext
      simp only [hempty, MemoryTransport.execute_eq]
      cases t.responses[0]? with
      | none => simp [Except.map]
      | some response => cases response <;> simp [htext, Except.map]

theorem Logged.failed {e : Error} (h : entry.failure? config t.responses[0]? = some e) :
    Logged config options sent (entry :: rest) t (entry.executeCalls config options)
      (.error e, t.after (entry.executeCalls config options)) :=
  ⟨rfl, Or.inl ⟨0, e, failsFirst_zero h, rfl, CommandEntry.makes_executeCalls⟩⟩

theorem Logged.cons {calls : List RecordedCall} {outcome : Except Error Nat × MemoryTransport}
    (hfirst : entry.failure? config t.responses[0]? = none)
    (h : Logged config options (sent + (entry.executeCalls config options).length) rest
      (t.after (entry.executeCalls config options)) calls outcome) :
    Logged config options sent (entry :: rest) t (entry.executeCalls config options ++ calls)
      outcome := by
  have hmade : ∀ entries : List CommandEntry,
      List.Forall₂ (CommandEntry.Makes config options) (entries.filter (·.hasText config)) calls →
        List.Forall₂ (CommandEntry.Makes config options)
          ((entry :: entries).filter (·.hasText config))
          (entry.executeCalls config options ++ calls) := by
    intro entries hentries
    have hentry : List.Forall₂ (CommandEntry.Makes config options)
      ([entry].filter (·.hasText config)) (entry.executeCalls config options) :=
      CommandEntry.makes_executeCalls
    rw [← List.singleton_append, List.filter_append]
    exact List.rel_append hentry hentries
  refine ⟨h.transport.trans (t.after_append _ _).symm, ?_⟩
  rcases h.answer with ⟨place, e, hfails, hanswer, hcalls⟩ | ⟨hnone, hanswer, hcalls⟩
  · exact Or.inl ⟨place + 1, e, hfails.succ hfirst, hanswer, hmade _ hcalls⟩
  · refine Or.inr ⟨fun place => ?_, ?_, hmade rest hcalls⟩
    · cases place with
      | zero => exact hfirst
      | succ place => exact (failureAt?_succ place).trans (hnone place)
    · rw [hanswer, List.length_append, Nat.add_assoc]

theorem executeFrom_logged (config : Config) (options : Fields Json) (sent : Nat)
    (entries : List CommandEntry) (t : MemoryTransport) :
    ∃ calls, Logged config options sent entries t calls
      (executeFrom config options sent entries t) := by
  induction entries generalizing sent t with
  | nil => exact ⟨[], t.after_nil.symm, Or.inr ⟨fun _ => rfl, rfl, .nil⟩⟩
  | cons entry rest ih =>
    rw [executeFrom_cons]
    cases hentry : entry.failure? config t.responses[0]? with
    | some e => exact ⟨_, .failed hentry⟩
    | none =>
      obtain ⟨calls, h⟩ := ih (sent + (entry.executeCalls config options).length)
        (t.after (entry.executeCalls config options))
      exact ⟨_, h.cons hentry⟩

end Run

/-- Executing a command adds exactly the calls of its entries with text, one each and in their order,
up to the first entry that fails. One whose response is an error has been recorded all the same, one
that does not compile has not. The answer is that failure, or else how many calls there are. Nothing
but these calls took a response. -/
theorem execute_records (c : Command) (options : Fields Json) (conn : Connection) :
    ∃ calls, (c.execute options conn).2 = ⟨conn.config, conn.transport.calls ++ calls,
        conn.transport.responses.drop calls.length⟩ ∧
      ((∃ place e, FailsFirst conn.config conn.transport.responses c.entries place e ∧
          (c.execute options conn).1 = .error e ∧
          List.Forall₂ (CommandEntry.Makes conn.config options)
            ((c.entries.take (place + 1)).filter (·.hasText conn.config)) calls) ∨
        (∀ place, failureAt? conn.config conn.transport.responses c.entries place = none) ∧
          (c.execute options conn).1 = .ok calls.length ∧
          List.Forall₂ (CommandEntry.Makes conn.config options)
            (c.entries.filter (·.hasText conn.config)) calls) := by
  obtain ⟨calls, h⟩ := executeFrom_logged conn.config options 0 c.entries conn.transport
  have hanswer := h.answer
  rw [Nat.zero_add] at hanswer
  exact ⟨calls, congrArg (Connection.mk conn.config) h.transport, hanswer⟩

/-- The second response is an error, so the text behind it is not sent, and the third response is
left. -/
example :
    let conn : Connection := ⟨.default, [], [.ok [], .error (.invalidArgument "busy"), .ok []]⟩
    let after := ((ofTexts ["A", "", "B", "C"]).execute [] conn).2.transport
    after.texts = ["A", "B"] ∧ after.responses.length = 1 := by
  decide

/-! ### Commands of one entry -/

variable (entry : CommandEntry) (options : Fields Json) (conn : Connection)

theorem sends_one :
    conn.Sends ((ofEntry entry).one options conn).2 (entry.queryCalls conn.config options) := by
  have hentries : (ofEntry entry).entries = [entry] := rfl
  unfold one queryRows CommandEntry.queryCalls
  rw [hentries]
  dsimp only
  cases entry.toSql conn.config with
  | error e => exact conn.sends_nothing
  | ok sql => exact ⟨rfl, congrArg (·.2.calls) (MemoryTransport.call_eq _ _ _ _)⟩

theorem sends_execute :
    conn.Sends ((ofEntry entry).execute options conn).2
      (entry.executeCalls conn.config options) := by
  have hentries : (ofEntry entry).entries = [entry] := rfl
  unfold execute
  rw [hentries, executeFrom_cons]
  cases entry.failure? conn.config conn.transport.responses[0]? <;> exact ⟨rfl, rfl⟩

end Command

end DocMapper
