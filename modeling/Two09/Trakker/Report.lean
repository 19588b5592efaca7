import Two09.Lib.JsonText
import Two09.Trakker.Loop
import Mathlib

/-!
# The report of a trace

`trakker_result_write_json`, which writes the events of a traced program as JSON, category by category. The command is
escaped; the strings that the traced program has chosen are not.
-/

namespace Two09.Trakker

open Two09.Lib
open JsonText (Means Part Chars Clean)

/-! ### Results -/

/-- `trak_event_type_t` -/
inductive EventType
  | fileRead
  | fileWrite
  | fileCreate
  | fileDelete
  | netConnect
  | netBlocked
  | procFork
  | procExec
  | procExit
  | memMmap
  deriving DecidableEq

/-- `trak_event_t`, but for the port and the exit code, which are not written. -/
structure EventRecord where
  type : EventType
  path : Option Bytes
  address : Option Bytes
  command : Option Bytes
  pid : ℤ

/-- `trak_result_t` -/
structure TraceResult where
  command : Option Bytes
  exitCode : ℤ
  durationMs : ℕ
  events : List EventRecord

/-- The record that the tracer makes of an event. -/
def Event.record : Event → EventRecord
  | .fileRead path => ⟨.fileRead, some path, none, none, 0⟩
  | .fileWrite path => ⟨.fileWrite, some path, none, none, 0⟩
  | .fileDelete path => ⟨.fileDelete, some path, none, none, 0⟩
  | .netConnect address => ⟨.netConnect, none, some address, none, 0⟩
  | .netBlocked address => ⟨.netBlocked, none, some address, none, 0⟩
  | .procFork pid command => ⟨.procFork, none, none, some command, pid⟩
  | .procExec pid command => ⟨.procExec, none, none, some command, pid⟩
  | .procExit pid _ => ⟨.procExit, none, none, none, pid⟩

/-! ### The writer -/

/-- A byte of the command. -/
def escapeByte (c : UInt8) : Bytes :=
  if c = 34 then [92, 34]
  else if c = 92 then [92, 92]
  else if c = 10 then [92, 110]
  else if c = 9 then [92, 116]
  else [c]

/-- The loop over the events of a type, with what it writes about each. -/
def writeEvents (type : EventType) (item : EventRecord → Bytes) : Bool → List EventRecord → Bytes
  | _, [] => []
  | first, e :: rest =>
    if e.type = type then (if first then [] else ascii ", ") ++ item e ++ writeEvents type item false rest
    else writeEvents type item first rest

/-- `e->path ? e->path : "?"`, and so for the other strings. -/
def orUnknown (s : Option Bytes) : Bytes := s.getD (ascii "?")

def quoted (s : Bytes) : Bytes := ascii "\"" ++ s ++ ascii "\""

def EventRecord.writePid (e : EventRecord) : Bytes := ascii "\x7b\"pid\": " ++ signedDecimal e.pid ++ ascii "\x7d"

def EventRecord.writePath (e : EventRecord) : Bytes := quoted (orUnknown e.path)

def EventRecord.writeAddress (e : EventRecord) : Bytes := quoted (orUnknown e.address)

def EventRecord.writeCommand (e : EventRecord) : Bytes := quoted (orUnknown e.command)

/-- One of the eight lists. -/
def TraceResult.write (result : TraceResult) (type : EventType) (item : EventRecord → Bytes) : Bytes :=
  writeEvents type item true result.events

/-- `trakker_result_write_json` -/
def writeJson (result : TraceResult) : Bytes :=
  ascii "\x7b\n" ++
    ascii "  \"command\": \"" ++ (result.command.getD []).flatMap escapeByte ++ ascii "\",\n" ++
    ascii "  \"exit_code\": " ++ signedDecimal result.exitCode ++ ascii ",\n" ++
    ascii "  \"duration_ms\": " ++ signedDecimal result.durationMs ++ ascii ",\n" ++
    ascii "  \"files\": \x7b\n" ++
    ascii "    \"read\": [" ++ result.write .fileRead EventRecord.writePath ++
    ascii "],\n    \"write\": [" ++ result.write .fileWrite EventRecord.writePath ++
    ascii "],\n    \"create\": [" ++ result.write .fileCreate EventRecord.writePath ++
    ascii "],\n    \"delete\": [" ++ result.write .fileDelete EventRecord.writePath ++
    ascii "]\n  \x7d,\n" ++
    ascii "  \"network\": \x7b\n    \"allowed\": [" ++ result.write .netConnect EventRecord.writeAddress ++
    ascii "],\n    \"blocked\": [" ++ result.write .netBlocked EventRecord.writeAddress ++
    ascii "]\n  \x7d,\n" ++
    ascii "  \"processes\": \x7b\n    \"forked\": [" ++ result.write .procFork EventRecord.writePid ++
    ascii "],\n    \"exec\": [" ++ result.write .procExec EventRecord.writeCommand ++
    ascii "]\n  \x7d\n\x7d\n"

/-! ### What a report is to say -/

/-- The report as a value: the command, and for each category the events of it in their order. -/
def report (result : TraceResult) : Json :=
  let events (type : EventType) (item : EventRecord → Json) : Json :=
    .array ((result.events.filter fun e => e.type = type).map item)
  let path (e : EventRecord) : Json := .string (orUnknown e.path)
  let address (e : EventRecord) : Json := .string (orUnknown e.address)
  let command (e : EventRecord) : Json := .string (orUnknown e.command)
  let pid (e : EventRecord) : Json := .object [(ascii "pid", .number (signedDecimal e.pid))]
  .object
    [(ascii "command", .string (result.command.getD [])),
      (ascii "exit_code", .number (signedDecimal result.exitCode)),
      (ascii "duration_ms", .number (signedDecimal result.durationMs)),
      (ascii "files", .object
        [(ascii "read", events .fileRead path), (ascii "write", events .fileWrite path),
          (ascii "create", events .fileCreate path), (ascii "delete", events .fileDelete path)]),
      (ascii "network", .object
        [(ascii "allowed", events .netConnect address), (ascii "blocked", events .netBlocked address)]),
      (ascii "processes", .object
        [(ascii "forked", events .procFork pid), (ascii "exec", events .procExec command)])]

/-- The document is one of JSON, and says what the result says and nothing else. -/
def Faithful (result : TraceResult) : Prop := ∀ v, Means (writeJson result) v ↔ v = report result

/-- The string that is written of an event, if one is. -/
def EventRecord.written (e : EventRecord) : Option Bytes :=
  match e.type with
  | .fileRead | .fileWrite | .fileCreate | .fileDelete => some (orUnknown e.path)
  | .netConnect | .netBlocked => some (orUnknown e.address)
  | .procExec => some (orUnknown e.command)
  | .procFork | .procExit | .memMmap => none

/-- Bytes that the writer can deal with in a command: no control characters but tabs and ends of lines. -/
def Escapable (s : Bytes) : Prop := ∀ c ∈ s, 32 ≤ c ∨ c = 9 ∨ c = 10

/-- There is nothing to be escaped in what is written of the events, and nothing in the command that is not. -/
def Printable (result : TraceResult) : Prop :=
  Escapable (result.command.getD []) ∧ ∀ e ∈ result.events, ∀ s ∈ e.written, Clean s

/-! ### The parts of a report -/

/-- The command, with its escapes. -/
def commandPart (s : Bytes) : Part := ⟨34 :: (s.flatMap escapeByte ++ [34]), .string s, Escapable s⟩

def pidPart (e : EventRecord) : Part := .object [] [] [(ascii "pid", .number e.pid)]

section Parts

variable (result : TraceResult)

def eventsPart (type : EventType) (item : EventRecord → Part) : Part :=
  .array ((result.events.filter fun e => e.type = type).map item)

def pathsPart (type : EventType) : Part := eventsPart result type fun e => .string (orUnknown e.path)

def addressesPart (type : EventType) : Part := eventsPart result type fun e => .string (orUnknown e.address)

def filesPart : Part :=
  .object (ascii "\n    ") (ascii "\n  ")
    [(ascii "read", pathsPart result .fileRead), (ascii "write", pathsPart result .fileWrite),
      (ascii "create", pathsPart result .fileCreate), (ascii "delete", pathsPart result .fileDelete)]

def networkPart : Part :=
  .object (ascii "\n    ") (ascii "\n  ")
    [(ascii "allowed", addressesPart result .netConnect), (ascii "blocked", addressesPart result .netBlocked)]

def processesPart : Part :=
  .object (ascii "\n    ") (ascii "\n  ")
    [(ascii "forked", eventsPart result .procFork pidPart),
      (ascii "exec", eventsPart result .procExec fun e => .string (orUnknown e.command))]

def reportPart : Part :=
  .object (ascii "\n  ") (ascii "\n")
    [(ascii "command", commandPart (result.command.getD [])), (ascii "exit_code", .number result.exitCode),
      (ascii "duration_ms", .number result.durationMs), (ascii "files", filesPart result),
      (ascii "network", networkPart result), (ascii "processes", processesPart result)]

lemma writeEvents_eq (type : EventType) (item : EventRecord → Bytes) (events : List EventRecord) :
    (writeEvents type item true events = Part.separated ((events.filter fun e => e.type = type).map item)) ∧
      ∀ b, b ++ writeEvents type item false events =
        Part.separated (b :: (events.filter fun e => e.type = type).map item) := by
  induction events with
  | nil => exact ⟨rfl, fun b => List.append_nil b⟩
  | cons e events ih =>
    by_cases htype : e.type = type
    · rw [List.filter_cons_of_pos (by simpa using htype), List.map_cons]
      simp only [writeEvents, if_pos htype]
      constructor
      · rw [if_true, List.nil_append, ih.2]
      · intro b
        rw [if_neg (by decide), List.append_assoc (ascii ", "), ih.2]
        rfl
    · rw [List.filter_cons_of_neg (by simpa using htype)]
      simp only [writeEvents, if_neg htype]
      exact ih

lemma value_reportPart : (reportPart result).value = report result := by
  simp only [reportPart, filesPart, networkPart, processesPart, pathsPart, addressesPart, eventsPart, Part.object,
    Part.array, Part.number, Part.string, commandPart, List.map_map, List.map_cons, List.map_nil]
  rfl

lemma text_eventsPart (type : EventType) (item : EventRecord → Part) :
    (eventsPart result type item).text =
      ascii "[" ++ writeEvents type (fun e => (item e).text) true result.events ++ ascii "]" := by
  rw [(writeEvents_eq _ _ _).1, eventsPart, Part.array, List.map_map]
  rfl

lemma text_string (s : Bytes) : (Part.string s).text = quoted s := by
  simp [Part.string, quoted, ascii]

lemma text_path (e : EventRecord) : (Part.string (orUnknown e.path)).text = e.writePath := text_string _

lemma text_address (e : EventRecord) : (Part.string (orUnknown e.address)).text = e.writeAddress := text_string _

lemma text_command (e : EventRecord) : (Part.string (orUnknown e.command)).text = e.writeCommand := text_string _

lemma text_pidPart (e : EventRecord) : (pidPart e).text = e.writePid := by
  simp [pidPart, Part.object, Part.members, Part.number, EventRecord.writePid, ascii]

lemma text_filesPart : (filesPart result).text =
    ascii "\x7b\n    \"read\": [" ++ result.write .fileRead EventRecord.writePath ++
      ascii "],\n    \"write\": [" ++ result.write .fileWrite EventRecord.writePath ++
      ascii "],\n    \"create\": [" ++ result.write .fileCreate EventRecord.writePath ++
      ascii "],\n    \"delete\": [" ++ result.write .fileDelete EventRecord.writePath ++
      ascii "]\n  \x7d" := by
  simp [filesPart, pathsPart, Part.object, Part.members, text_eventsPart, text_path, TraceResult.write, ascii]

lemma text_networkPart : (networkPart result).text =
    ascii "\x7b\n    \"allowed\": [" ++ result.write .netConnect EventRecord.writeAddress ++
      ascii "],\n    \"blocked\": [" ++ result.write .netBlocked EventRecord.writeAddress ++
      ascii "]\n  \x7d" := by
  simp [networkPart, addressesPart, Part.object, Part.members, text_eventsPart, text_address, TraceResult.write, ascii]

lemma text_processesPart : (processesPart result).text =
    ascii "\x7b\n    \"forked\": [" ++ result.write .procFork EventRecord.writePid ++
      ascii "],\n    \"exec\": [" ++ result.write .procExec EventRecord.writeCommand ++
      ascii "]\n  \x7d" := by
  simp [processesPart, Part.object, Part.members, text_eventsPart, text_command, text_pidPart, TraceResult.write, ascii]

set_option maxRecDepth 2000 in
lemma text_reportPart : (reportPart result).text ++ [10] = writeJson result := by
  simp only [reportPart, Part.object, Part.members, commandPart, Part.number, text_filesPart, text_networkPart,
    text_processesPart]
  unfold writeJson
  simp [ascii]

/-! ### When a report is read as it is meant -/

/-- The escapes are read back, and so is whatever else can stand in a string. -/
lemma chars_escapeByte_iff {s tail rest : Bytes} :
    Chars (s.flatMap escapeByte ++ 34 :: tail) s rest ↔ Escapable s ∧ rest = tail := by
  induction s with
  | nil =>
    rw [List.flatMap_nil, List.nil_append]
    constructor
    · exact fun h => ⟨List.forall_mem_nil _, (h.unique (.close tail)).2⟩
    · rintro ⟨-, rfl⟩
      exact .close rest
  | cons c s ih =>
    have hstep : Chars (escapeByte c ++ (s.flatMap escapeByte ++ 34 :: tail)) (c :: s) rest ↔
        (32 ≤ c ∨ c = 9 ∨ c = 10) ∧ Chars (s.flatMap escapeByte ++ 34 :: tail) s rest := by
      by_cases h34 : c = 34
      · subst h34
        exact (JsonText.chars_escape_iff rfl).trans (iff_and_self.2 fun _ => by decide)
      by_cases h92 : c = 92
      · subst h92
        exact (JsonText.chars_escape_iff rfl).trans (iff_and_self.2 fun _ => by decide)
      by_cases h10 : c = 10
      · subst h10
        exact (JsonText.chars_escape_iff rfl).trans (iff_and_self.2 fun _ => by decide)
      by_cases h9 : c = 9
      · subst h9
        exact (JsonText.chars_escape_iff rfl).trans (iff_and_self.2 fun _ => by decide)
      · have hplain : escapeByte c = [c] := by
          rw [escapeByte, if_neg h34, if_neg h92, if_neg h10, if_neg h9]
        rw [hplain, List.singleton_append, JsonText.chars_plain_iff h34 h92]
        simp [h9, h10]
    rw [List.flatMap_cons, List.append_assoc, hstep, ih, ← and_assoc]
    simp only [Escapable, List.forall_mem_cons]

lemma reads_commandPart (s : Bytes) : (commandPart s).Reads where
  front tail := JsonGrammar.blanks_of_not (by decide) _
  iff tail rest _ := by
    have htext : (commandPart s).text ++ tail = 34 :: (s.flatMap escapeByte ++ 34 :: tail) := by simp [commandPart]
    rw [htext]
    constructor
    · intro h
      obtain ⟨out, hout, hs⟩ := h.string_inv
      obtain rfl := Json.string.inj hout
      exact chars_escapeByte_iff.1 hs
    · exact fun h => .string (chars_escapeByte_iff.2 h)

/-- The white space of the layout. -/
lemma blank_layout : JsonText.Part.Blank (ascii "\n    ") ∧ JsonText.Part.Blank (ascii "\n  ") ∧
    JsonText.Part.Blank (ascii "\n") ∧ JsonText.Part.Blank [] := by
  simp [JsonText.Part.Blank, JsonGrammar.isBlank, ascii]

lemma clean_names : ∀ name ∈ ["command", "exit_code", "duration_ms", "files", "read", "write", "create", "delete",
    "network", "allowed", "blocked", "processes", "forked", "exec", "pid"], Clean (ascii name) := by
  simp [Clean, ascii]

lemma reads_pidPart (e : EventRecord) : (pidPart e).Reads := by
  refine Part.reads_object blank_layout.2.2.2 blank_layout.2.2.2 ?_ (List.cons_ne_nil _ _)
  exact List.forall_mem_singleton.2 ⟨clean_names "pid" (by simp), Part.reads_number e.pid⟩

lemma reads_eventsPart (type : EventType) {item : EventRecord → Part} (h : ∀ e, (item e).Reads) :
    (eventsPart result type item).Reads := by
  refine Part.reads_array fun p hp => ?_
  obtain ⟨e, -, rfl⟩ := List.mem_map.1 hp
  exact h e

lemma reads_filesPart : (filesPart result).Reads := by
  refine Part.reads_object blank_layout.1 blank_layout.2.1 ?_ (List.cons_ne_nil _ _)
  have hpaths := fun type => reads_eventsPart result type fun e => Part.reads_string (orUnknown e.path)
  simp only [List.forall_mem_cons]
  exact ⟨⟨clean_names "read" (by simp), hpaths _⟩, ⟨clean_names "write" (by simp), hpaths _⟩,
    ⟨clean_names "create" (by simp), hpaths _⟩, ⟨clean_names "delete" (by simp), hpaths _⟩, List.forall_mem_nil _⟩

lemma reads_networkPart : (networkPart result).Reads := by
  refine Part.reads_object blank_layout.1 blank_layout.2.1 ?_ (List.cons_ne_nil _ _)
  have haddresses := fun type => reads_eventsPart result type fun e => Part.reads_string (orUnknown e.address)
  simp only [List.forall_mem_cons]
  exact ⟨⟨clean_names "allowed" (by simp), haddresses _⟩, ⟨clean_names "blocked" (by simp), haddresses _⟩,
    List.forall_mem_nil _⟩

lemma reads_processesPart : (processesPart result).Reads := by
  refine Part.reads_object blank_layout.1 blank_layout.2.1 ?_ (List.cons_ne_nil _ _)
  simp only [List.forall_mem_cons]
  exact ⟨⟨clean_names "forked" (by simp), reads_eventsPart result _ reads_pidPart⟩, ⟨clean_names "exec" (by simp),
    reads_eventsPart result _ fun e => Part.reads_string (orUnknown e.command)⟩, List.forall_mem_nil _⟩

lemma reads_reportPart : (reportPart result).Reads := by
  refine Part.reads_object blank_layout.2.1 blank_layout.2.2.1 ?_ (List.cons_ne_nil _ _)
  simp only [List.forall_mem_cons]
  exact ⟨⟨clean_names "command" (by simp), reads_commandPart _⟩,
    ⟨clean_names "exit_code" (by simp), Part.reads_number _⟩,
    ⟨clean_names "duration_ms" (by simp), Part.reads_number _⟩,
    ⟨clean_names "files" (by simp), reads_filesPart result⟩,
    ⟨clean_names "network" (by simp), reads_networkPart result⟩,
    ⟨clean_names "processes" (by simp), reads_processesPart result⟩, List.forall_mem_nil _⟩

lemma ok_eventsPart (type : EventType) (item : EventRecord → Part) :
    (eventsPart result type item).ok ↔ ∀ e ∈ result.events, e.type = type → (item e).ok := by
  constructor
  · intro h e he htype
    exact h _ (List.mem_map_of_mem (List.mem_filter.2 ⟨he, decide_eq_true htype⟩))
  · intro h p hp
    obtain ⟨e, he, rfl⟩ := List.mem_map.1 hp
    obtain ⟨he, htype⟩ := List.mem_filter.1 he
    exact h e he (of_decide_eq_true htype)

lemma ok_reportPart : (reportPart result).ok ↔ Printable result := by
  have hok : (reportPart result).ok ↔ Escapable (result.command.getD []) ∧
      ((∀ e ∈ result.events, e.type = .fileRead → Clean (orUnknown e.path)) ∧
        (∀ e ∈ result.events, e.type = .fileWrite → Clean (orUnknown e.path)) ∧
        (∀ e ∈ result.events, e.type = .fileCreate → Clean (orUnknown e.path)) ∧
        ∀ e ∈ result.events, e.type = .fileDelete → Clean (orUnknown e.path)) ∧
      ((∀ e ∈ result.events, e.type = .netConnect → Clean (orUnknown e.address)) ∧
        ∀ e ∈ result.events, e.type = .netBlocked → Clean (orUnknown e.address)) ∧
      ∀ e ∈ result.events, e.type = .procExec → Clean (orUnknown e.command) := by
    simp [reportPart, filesPart, networkPart, processesPart, pathsPart, addressesPart, Part.object, ok_eventsPart,
      commandPart, Part.number, Part.string, pidPart]
  rw [hok, Printable]
  refine and_congr_right fun _ => ⟨?_, fun h => ?_⟩
  · rintro ⟨⟨hread, hwrite, hcreate, hdelete⟩, ⟨hconnect, hblocked⟩, hexec⟩ e he s hs
    unfold EventRecord.written at hs
    cases htype : e.type with
    | fileRead =>
      obtain rfl : orUnknown e.path = s := by simpa [htype] using hs
      exact hread e he htype
    | fileWrite =>
      obtain rfl : orUnknown e.path = s := by simpa [htype] using hs
      exact hwrite e he htype
    | fileCreate =>
      obtain rfl : orUnknown e.path = s := by simpa [htype] using hs
      exact hcreate e he htype
    | fileDelete =>
      obtain rfl : orUnknown e.path = s := by simpa [htype] using hs
      exact hdelete e he htype
    | netConnect =>
      obtain rfl : orUnknown e.address = s := by simpa [htype] using hs
      exact hconnect e he htype
    | netBlocked =>
      obtain rfl : orUnknown e.address = s := by simpa [htype] using hs
      exact hblocked e he htype
    | procExec =>
      obtain rfl : orUnknown e.command = s := by simpa [htype] using hs
      exact hexec e he htype
    | procFork | procExit | memMmap => simp [htype] at hs
  · have hpath : ∀ type, (∀ e : EventRecord, e.type = type → e.written = some (orUnknown e.path)) →
        ∀ e ∈ result.events, e.type = type → Clean (orUnknown e.path) :=
      fun type hw e he htype => h e he _ (hw e htype)
    have haddress : ∀ type, (∀ e : EventRecord, e.type = type → e.written = some (orUnknown e.address)) →
        ∀ e ∈ result.events, e.type = type → Clean (orUnknown e.address) :=
      fun type hw e he htype => h e he _ (hw e htype)
    refine ⟨⟨hpath _ ?_, hpath _ ?_, hpath _ ?_, hpath _ ?_⟩, ⟨haddress _ ?_, haddress _ ?_⟩, fun e he htype =>
      h e he _ ?_⟩
    all_goals simp +contextual [EventRecord.written, *]

/-- **When a report is faithful.** -/
theorem faithful_iff : Faithful result ↔ Printable result := by
  have hmeans : Means (writeJson result) (report result) ↔ Printable result := by
    rw [← text_reportPart, ← value_reportPart, ← ok_reportPart]
    exact Part.means_iff (reads_reportPart result) (List.forall_mem_singleton.2 rfl)
  constructor
  · exact fun h => hmeans.1 ((h _).2 rfl)
  · intro h v
    constructor
    · exact fun hv => hv.unique (hmeans.2 h)
    · rintro rfl
      exact hmeans.2 h

end Parts

/-- A file of the name `a", "b` is reported as two, `a` and `b`. -/
theorem file_name_forges_entry :
    ¬ Faithful ⟨some (ascii "ls"), 0, 5, [(Event.fileRead (ascii "a\", \"b")).record]⟩ := by
  intro h
  have hmeans := (h _).2 rfl
  rw [← text_reportPart, ← value_reportPart] at hmeans
  have hok := (Part.means_iff (reads_reportPart _) (List.forall_mem_singleton.2 rfl)).1 hmeans
  have hclean := ((ok_reportPart _).1 hok).2 _ (List.mem_singleton_self _) _ rfl
  exact (hclean 34 (by simp [Event.record, orUnknown, ascii])).2.1 rfl

end Two09.Trakker
