import DocMapper.Proofs.Command
/-!
# Texts on the way

What a command does over a connection, request by request, and the texts that the transport gets to
see. A run leaves out the entries without text. A query sends its first entry as it was compiled,
so a text without anything in it gets through by a query and in no other way.
-/

namespace DocMapper

namespace Connection

variable {conn mid conn' : Connection} {calls more : List RecordedCall}

theorem Sends.trans (h : conn.Sends mid calls) (h' : mid.Sends conn' more) :
    conn.Sends conn' (calls ++ more) where
  config := h'.config.trans h.config
  calls := by rw [h'.calls, h.calls, List.append_assoc]

end Connection

namespace CommandEntry

/-- The entry compiles, and nothing comes of it. -/
def IsEmpty (config : Config) (entry : CommandEntry) : Prop :=
  ∃ finished, entry.toSql config = .ok finished ∧ finished.text = ""

variable {config : Config} {options : Fields Json} {entry : CommandEntry}

theorem exists_empty_queryCalls_iff :
    (∃ call ∈ entry.queryCalls config options, call.text = "") ↔ entry.IsEmpty config := by
  unfold queryCalls IsEmpty
  cases entry.toSql config with
  | error e => simp
  | ok finished => simp

theorem Makes.text_ne_empty {call : RecordedCall} (h : entry.Makes config options call)
    (htext : entry.hasText config = true) : call.text ≠ "" := by
  obtain ⟨finished, hcompiles, hcall, -⟩ := h.sent
  rw [hasText, hcompiles] at htext
  exact hcall ▸ of_decide_eq_true htext

theorem texts_of_makes {entries : List CommandEntry} {calls : List RecordedCall}
    (h : List.Forall₂ (Makes config options) (entries.filter (·.hasText config)) calls) :
    ∀ call ∈ calls, call.text ≠ "" := by
  have hsent := (List.forall₂_and_left _ _).mpr ⟨fun entry hmem => (List.mem_filter.mp hmem).2, h⟩
  clear h
  generalize entries.filter (·.hasText config) = sent at hsent
  induction hsent with
  | nil => exact nofun
  | cons hfirst _ ih => exact List.forall_mem_cons.mpr ⟨hfirst.2.text_ne_empty hfirst.1, ih⟩

end CommandEntry

namespace Command

/-- What a command is asked for over a connection: a run of its entries, or one of the four queries
of its first entry. -/
inductive Request where
  | execute (options : Fields Json)
  | all (options : Fields Json)
  | one (options : Fields Json)
  | scalar (options : Fields Json)
  | column (name? : Option String) (options : Fields Json)

namespace Request

def perform (c : Command) (conn : Connection) : Request → Connection
  | .execute options => (c.execute options conn).2
  | .all options => (c.all options conn).2
  | .one options => (c.one options conn).2
  | .scalar options => (c.scalar options conn).2
  | .column name? options => (c.column name? options conn).2

def performAll (c : Command) (conn : Connection) (requests : List Request) : Connection :=
  requests.foldl (perform c) conn

def IsQuery : Request → Prop
  | .execute _ => False
  | .all _ | .one _ | .scalar _ | .column _ _ => True

end Request

/-- The first entry compiles to nothing. -/
def StartsEmpty (config : Config) (c : Command) : Prop :=
  ∃ entry ∈ c.entries.head?, entry.IsEmpty config

section Requests

variable (c : Command) (options : Fields Json) (conn : Connection)

/-- A run sends what has text. -/
theorem sends_execute_texts : ∃ calls, conn.Sends (c.execute options conn).2 calls ∧
    ∀ call ∈ calls, call.text ≠ "" := by
  obtain ⟨calls, h⟩ := executeFrom_logged conn.config options 0 c.entries conn.transport
  refine ⟨calls, ⟨rfl, congrArg MemoryTransport.calls h.transport⟩, ?_⟩
  rcases h.answer with ⟨_, _, -, -, hmade⟩ | ⟨-, -, hmade⟩
  · exact CommandEntry.texts_of_makes hmade
  · exact CommandEntry.texts_of_makes hmade

/-- A query sends its first entry, whatever came of it. -/
theorem sends_queryRows (one : Bool) : ∃ calls, conn.Sends (c.queryRows options one conn).2 calls ∧
    ((∃ call ∈ calls, call.text = "") ↔ c.StartsEmpty conn.config) := by
  unfold queryRows StartsEmpty
  cases c.entries with
  | nil => exact ⟨[], conn.sends_nothing, by simp⟩
  | cons entry rest =>
    refine ⟨entry.queryCalls conn.config options, ?_, ?_⟩
    · unfold CommandEntry.queryCalls
      dsimp only
      cases entry.toSql conn.config with
      | error e => exact conn.sends_nothing
      | ok finished => exact ⟨rfl, congrArg (·.2.calls) (MemoryTransport.call_eq _ _ _ _)⟩
    · rw [CommandEntry.exists_empty_queryCalls_iff]
      simp

theorem sends_perform (request : Request) : ∃ calls,
    conn.Sends (request.perform c conn) calls ∧
      ((∃ call ∈ calls, call.text = "") ↔ request.IsQuery ∧ c.StartsEmpty conn.config) := by
  cases request with
  | execute options =>
    obtain ⟨calls, hsends, htexts⟩ := c.sends_execute_texts options conn
    exact ⟨calls, hsends, fun ⟨call, hmem, hempty⟩ => absurd hempty (htexts call hmem), nofun⟩
  | all options | one options | scalar options | column name? options =>
    obtain ⟨calls, hsends, hempty⟩ := c.sends_queryRows options conn _
    exact ⟨calls, hsends, hempty.trans ⟨fun h => ⟨trivial, h⟩, And.right⟩⟩

/-- However often a command is asked, the texts with nothing in them are those of its queries. -/
theorem sends_performAll (requests : List Request) : ∃ calls,
    conn.Sends (Request.performAll c conn requests) calls ∧
      ((∃ call ∈ calls, call.text = "") ↔
        (∃ request ∈ requests, request.IsQuery) ∧ c.StartsEmpty conn.config) := by
  induction requests generalizing conn with
  | nil => exact ⟨[], conn.sends_nothing, by simp⟩
  | cons request rest ih =>
    obtain ⟨calls, hfirst, hempty⟩ := c.sends_perform conn request
    obtain ⟨more, hrest, hmore⟩ := ih (request.perform c conn)
    refine ⟨calls ++ more, hfirst.trans hrest, ?_⟩
    rw [hfirst.config] at hmore
    calc
      (∃ call ∈ calls ++ more, call.text = "")
          ↔ (∃ call ∈ calls, call.text = "") ∨ ∃ call ∈ more, call.text = "" := by
        simp only [List.mem_append, or_and_right, exists_or]
      _ ↔ request.IsQuery ∧ c.StartsEmpty conn.config ∨
          (∃ later ∈ rest, later.IsQuery) ∧ c.StartsEmpty conn.config := or_congr hempty hmore
      _ ↔ (∃ asked ∈ request :: rest, asked.IsQuery) ∧ c.StartsEmpty conn.config := by
        rw [← or_and_right, List.exists_mem_cons_iff]

/-- All texts that reach the transport have something in them exactly if no query is made of a
command whose first entry compiles to nothing. -/
theorem no_empty_text_iff (requests : List Request) : ∃ calls,
    conn.Sends (Request.performAll c conn requests) calls ∧
      ((∀ call ∈ calls, call.text ≠ "") ↔
        ∀ request ∈ requests, request.IsQuery → ¬ c.StartsEmpty conn.config) := by
  obtain ⟨calls, hsends, hempty⟩ := c.sends_performAll conn requests
  refine ⟨calls, hsends, ?_⟩
  constructor
  · intro htexts request hmem hquery hstarts
    obtain ⟨call, hcall, hnone⟩ := hempty.mpr ⟨⟨request, hmem, hquery⟩, hstarts⟩
    exact htexts call hcall hnone
  · intro hqueries call hcall hnone
    obtain ⟨⟨request, hmem, hquery⟩, hstarts⟩ := hempty.mp ⟨call, hcall, hnone⟩
    exact hqueries request hmem hquery hstarts

end Requests

/-- A bare selection compiles to nothing, and a query sends it all the same. -/
theorem empty_text_queried : ¬ ∀ call ∈ (Request.performAll (ofEntry (.statement .select))
    ⟨.default, .empty⟩ [.all []]).transport.calls, call.text ≠ "" := by
  decide

end Command

end DocMapper
