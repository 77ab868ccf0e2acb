import Packwright.Job
import Packwright.Log.Call
import Packwright.Proofs.Disk.Walk
import Packwright.Proofs.Json.Sorting
import Packwright.Proofs.Text.Utf8

/-!
# One line for each event

Whatever events are added to a log, and in whatever way, each of them is a line of its own behind
what was in the file, and the line can be read as the event.

* `Event.exists_isHeldBy_of_line`: a line is read as the fields of its event.
* `EventLog.OpensWith` says what is in a file that events can be added to, and `exists_append` is
  the step: the line of an event is put behind it.
* `framed_of_calls` puts the two together for any number of calls.
-/

namespace Packwright

open Packwright.Text
open Json (IsReadableWithin)

/-! ## Lines and events -/

namespace Event

/-- Whether fields are those of an event, and no others; in the metadata the order of keys does not
count. -/
structure IsHeldBy (e : Event) (fields : Value.Fields) : Prop where
  timestamp : Dictionary.get? fields "timestamp" = some (.text e.timestamp)
  kind : Dictionary.get? fields "kind" = some (.text e.kind)
  unit : Dictionary.get? fields "unit" = some (.ofText? e.unit?)
  ok : Dictionary.get? fields "ok" = some (.bool e.ok)
  error : Dictionary.get? fields "error" = some (.ofText? e.error?)
  metadata : ∃ found, Dictionary.get? fields "metadata" = some found ∧
    found.Agrees (.table e.metadata)
  only : Dictionary.keys fields = ["error", "kind", "metadata", "ok", "timestamp", "unit"]

theorem sortKeys_ofText? (s? : Option String) : (Value.ofText? s?).sortKeys = .ofText? s? := by
  cases s? <;> rfl

/-- An event as a value, with its keys in order. -/
theorem sortKeys_toValue (e : Event) : e.toValue.sortKeys = .table [
    ("error", .ofText? e.error?),
    ("kind", .text e.kind),
    ("metadata", (Value.table e.metadata).sortKeys),
    ("ok", .bool e.ok),
    ("timestamp", .text e.timestamp),
    ("unit", .ofText? e.unit?)] := by
  unfold toValue
  rw [Value.sortKeys]
  refine congrArg Value.table (Dictionary.Ascending.ext ?sorted ?ascending ?entries)
  case sorted =>
    apply Dictionary.ascending_mergeSort
    rw [Value.keys_sortFields]
    show ["timestamp", "kind", "unit", "ok", "error", "metadata"].Nodup
    decide
  case ascending =>
    -- the order in which the keys come
    have hkeys : ["error", "kind", "metadata", "ok", "timestamp", "unit"].Pairwise (· < ·) := by
      decide
    exact List.pairwise_map.mp hkeys
  case entries =>
    intro p
    rw [List.mem_mergeSort, Value.sortFields_eq_map]
    simp only [List.map_cons, List.map_nil, List.mem_cons, sortKeys_ofText?, Value.sortKeys]
    tauto

variable {limit? : Option Nat} {e : Event}

theorem isReadableWithin_ofText? (s? : Option String) : IsReadableWithin limit? (.ofText? s?) := by
  cases s? with
  | none => exact .null
  | some s => exact .text s

/-- An event is readable if its metadata are. -/
theorem isReadableWithin_toValue (h : IsReadableWithin limit? (.table e.metadata)) :
    IsReadableWithin limit? e.toValue := by
  refine .table ?_ ?_
  · show ["timestamp", "kind", "unit", "ok", "error", "metadata"].Nodup
    decide
  · simp only [List.forall_mem_cons]
    exact ⟨.text _, .text _, isReadableWithin_ofText? _, .bool _, isReadableWithin_ofText? _, h,
      by simp⟩

/-- **A line is read as the fields of its event.** -/
theorem exists_isHeldBy_of_line (h : IsReadableWithin limit? (.table e.metadata)) :
    ∃ fields, Json.readWithin limit? e.line = .ok (.table fields) ∧ e.IsHeldBy fields := by
  refine ⟨_, (Json.readWithin_writeSorted (isReadableWithin_toValue h)).trans
    (congrArg Except.ok e.sortKeys_toValue), ?_⟩
  exact ⟨rfl, rfl, rfl, rfl, rfl, ⟨_, rfl, Value.agrees_sortKeys h⟩, rfl⟩

end Event

/-- The text of some lines, each with its end. -/
def endedText (lines : List (List Char)) : List Char :=
  lines.flatMap fun line => line ++ ['\n']

def linesOf (events : List Event) : List (List Char) :=
  events.map fun e => e.line.toList

/-- Ended lines are encoded line by line, each with its newline byte. -/
theorem encodeChars_endedText (lines : List (List Char)) : Utf8.encodeChars (endedText lines) =
    (lines.map Utf8.encodeChars).flatMap fun line => line ++ [0x0a] := by
  induction lines with
  | nil => rfl
  | cons line more ih =>
    have htext : endedText (line :: more) = line ++ '\n' :: endedText more := by simp [endedText]
    have hend : String.utf8EncodeChar '\n' = [0x0a] := by decide
    rw [htext, Utf8.encodeChars_append, Utf8.encodeChars_cons, ih, hend, List.map_cons,
      List.flatMap_cons, List.append_assoc]

/-- The line of an event holds no newline: it is printable ASCII. -/
theorem newline_not_mem_linesOf (events : List Event) : ∀ line ∈ linesOf events, '\n' ∉ line := by
  intro line hline
  obtain ⟨e, -, rfl⟩ := List.mem_map.mp hline
  exact Json.newline_not_mem_writeSorted e.toValue

/-! ## Adding events -/

namespace EventLog

variable {log : EventLog} {disk : Disk} {bytes : List UInt8}

/-- What is in the file of a log that events can be added to. A file that is not there has nothing
in it; it can be made if its directory can be made. -/
inductive OpensWith (log : EventLog) (disk : Disk) : List UInt8 → Prop
  | present {bytes : List UInt8} (hread : disk.read log.path = .ok bytes) : OpensWith log disk bytes
  | absent {made : Disk} {location : Location} (hready : log.ready = false)
      (hmade : disk.makeDirectories log.path.parent = .ok made)
      (hfree : made.walk true log.path = .ok (.free location)) : OpensWith log disk []

/-- What appending does, with its two steps named. -/
theorem append_eq (log : EventLog) (disk : Disk) (e : Event) : log.append disk e =
    (if log.ready then pure disk else disk.makeDirectories log.path.parent) >>= fun disk =>
      disk.append log.path (Utf8.encodeChars (endedText (linesOf [e]))) >>= fun disk =>
        pure ({ log with ready := true }, disk) := by
  have hline : Utf8.encode (e.line ++ "\n") = Utf8.encodeChars (endedText (linesOf [e])) := by
    simp [Utf8.encode, endedText, linesOf]
  unfold append
  rw [hline]
  cases log.ready <;> rfl

/-- **An event is put behind what is in the file**, on a line of its own. -/
theorem exists_append (h : log.OpensWith disk bytes) (e : Event) : ∃ disk',
    log.append disk e = .ok ({ log with ready := true }, disk') ∧
      disk'.read log.path = .ok (bytes ++ Utf8.encodeChars (endedText (linesOf [e]))) := by
  rw [append_eq]
  cases h with
  | present hread =>
    -- where there is a file, there is a directory for it
    have hmade : (if log.ready then pure disk else disk.makeDirectories log.path.parent) =
        .ok disk := by
      split
      · rfl
      · exact Disk.makeDirectories_parent_of_read hread
    obtain ⟨disk', happend, hread'⟩ :=
      Disk.exists_append_of_read hread (Utf8.encodeChars (endedText (linesOf [e])))
    refine ⟨disk', ?_, hread'⟩
    rw [hmade]
    show (disk.append log.path _ >>= _) = _
    rw [happend]
    rfl
  | @absent made location hready hmade hfree =>
    obtain ⟨disk', happend, hread'⟩ :=
      Disk.exists_append_of_free hfree (Utf8.encodeChars (endedText (linesOf [e])))
    refine ⟨disk', ?_, hread'⟩
    rw [hready, if_neg Bool.false_ne_true, hmade]
    show (made.append log.path _ >>= _) = _
    rw [happend]
    rfl

end EventLog

/-! ## Calls -/

section Calls

variable {s : Session} {log : EventLog} {bytes initial : List UInt8}

/-- What a job records is such a call. -/
theorem run_record {σ : Type} (engines : Job.Engines σ) (kind : String) (unit? : Option String)
    (ok : Bool) (error? : Option String) (metadata : Value.Fields) (s : Session) (x : σ) :
    (Job.record kind unit? ok error? metadata).run engines (s, x) =
      match s.call (.record s.timestamp kind unit? ok error? metadata) with
      | .ok s' => (.ok (), (s', x))
      | .error e => (.error (.disk e), (s, x)) := by
  show (match s.append (s.stampEvent kind unit? ok error? metadata) with
    | .ok s => Job.put s (pure ()) | .error e => Job.fail (.disk e)).run engines (s, x) =
      match s.append (s.stampEvent kind unit? ok error? metadata) with | .ok s' => _ | .error e => _
  cases s.append (s.stampEvent kind unit? ok error? metadata) <;> rfl

/-- **One call adds one line** behind what the log has, whichever way it is made. -/
theorem exists_call (hlog : s.eventLog? = some log) (h : log.OpensWith s.disk bytes) (c : LogCall) :
    ∃ s', s.call c = .ok s' ∧ s'.eventLog? = some { log with ready := true } ∧
      s'.disk.read log.path = .ok (bytes ++ Utf8.encodeChars (endedText (linesOf [c.event]))) := by
  obtain ⟨disk', happend, hread⟩ := EventLog.exists_append h c.event
  -- the two kinds of call differ in who sets the time
  have hcall : ∀ s₀ : Session, s₀.eventLog? = some log → s₀.disk = s.disk →
      s₀.append c.event = .ok { s₀ with
        disk := disk', eventLog? := some { log with ready := true } } := by
    intro s₀ hlog₀ hdisk
    unfold Session.append
    rw [hlog₀, hdisk]
    show (log.append s.disk c.event >>= _) = _
    rw [happend]
    rfl
  cases c with
  | append e => exact ⟨_, hcall s hlog rfl, rfl, hread⟩
  | record now kind unit? ok error? metadata =>
    exact ⟨_, hcall { s with timestamp := now } hlog rfl, rfl, hread⟩

/-- So calls add their lines, in their order. -/
theorem exists_callAll_of_read (hlog : s.eventLog? = some log)
    (hread : s.disk.read log.path = .ok bytes) (calls : List LogCall) : ∃ s',
      s.callAll calls = .ok s' ∧ s'.disk.read log.path =
        .ok (bytes ++ Utf8.encodeChars (endedText (linesOf (calls.map LogCall.event)))) := by
  induction calls generalizing s log bytes with
  | nil => exact ⟨s, rfl, by simpa [linesOf, endedText] using hread⟩
  | cons c rest ih =>
    obtain ⟨s₁, hcall, hlog₁, hread₁⟩ := exists_call hlog (.present hread) c
    obtain ⟨s', hrest, hread'⟩ := ih hlog₁ hread₁
    refine ⟨s', ?_, ?_⟩
    · rw [Session.callAll, hcall]
      exact hrest
    · refine hread'.trans (congrArg Except.ok ?_)
      simp [linesOf, endedText]

/-- **A line for each event.** The bytes are those that were there, followed by lines that the events
can be read from, in their order; in the whole file, each of these lines is one. -/
structure Framed (limit? : Option Nat) (initial : List UInt8) (events : List Event)
    (bytes : List UInt8) (lines : List (List Char)) : Prop where
  added : ∃ text, bytes = initial ++ Utf8.encodeChars text ∧ splitOn '\n' text = lines ++ [[]]
  held : List.Forall₂ (fun line e => ∃ fields,
    Json.readWithin limit? (String.ofList line) = .ok (.table fields) ∧ e.IsHeldBy fields)
    lines events
  apart : ∃ before, splitOn 0x0a initial = before ++ [[]] ∧
    splitOn 0x0a bytes = before ++ lines.map Utf8.encodeChars ++ [[]]

/-- Ended lines behind ended lines are framed, and read back one by one. -/
theorem framed_linesOf {limit? : Option Nat} {events : List Event}
    (hended : initial = [] ∨ initial.getLast? = some 0x0a)
    (hreadable : ∀ e ∈ events, IsReadableWithin limit? (.table e.metadata)) :
    Framed limit? initial events
      (initial ++ Utf8.encodeChars (endedText (linesOf events))) (linesOf events) := by
  have hlines := newline_not_mem_linesOf events
  constructor
  case added => exact ⟨_, rfl, splitOn_flatMap_ended hlines⟩
  case held =>
    unfold linesOf
    rw [List.forall₂_map_left_iff]
    refine List.forall₂_same.mpr fun e he => ?_
    rw [String.ofList_toList]
    exact Event.exists_isHeldBy_of_line (hreadable e he)
  case apart =>
    have hsplit : splitOn 0x0a (Utf8.encodeChars (endedText (linesOf events))) =
        (linesOf events).map Utf8.encodeChars ++ [[]] := by
      rw [encodeChars_endedText]
      refine splitOn_flatMap_ended fun line hline => ?_
      obtain ⟨chars, hchars, rfl⟩ := List.mem_map.mp hline
      exact mt (Utf8.newline_mem_encodeChars_iff chars).mp (hlines chars hchars)
    -- what was in the file has ended its line, so the first event starts a new one
    rcases hended with rfl | hlast
    · exact ⟨[], rfl, hsplit⟩
    · obtain ⟨front, rfl⟩ := List.getLast?_eq_some_iff.mp hlast
      refine ⟨splitOn 0x0a front, splitOn_append_sep_append front [], ?_⟩
      rw [List.append_assoc, List.singleton_append, splitOn_append_sep_append, hsplit,
        List.append_assoc]

/-- **Every event has a line of its own, behind what was in the file and in the order of the
calls**; as long as there is none, nothing happens. -/
theorem framed_of_calls (limit? : Option Nat) (hlog : s.eventLog? = some log)
    (hopens : log.OpensWith s.disk initial)
    (hended : initial = [] ∨ initial.getLast? = some 0x0a) (calls : List LogCall)
    (hreadable : ∀ c ∈ calls, IsReadableWithin limit? (.table c.event.metadata)) :
    ∃ s', s.callAll calls = .ok s' ∧ (calls = [] → s' = s) ∧
      (calls ≠ [] → ∃ bytes lines, s'.disk.read log.path = .ok bytes ∧
        Framed limit? initial (calls.map LogCall.event) bytes lines) := by
  cases calls with
  | nil => exact ⟨s, rfl, fun _ => rfl, fun hne => absurd rfl hne⟩
  | cons c rest =>
    -- from the first event on, there is a file
    obtain ⟨s₁, hcall, hlog₁, hread₁⟩ := exists_call hlog hopens c
    obtain ⟨s', hrest, hread'⟩ := exists_callAll_of_read hlog₁ hread₁ rest
    refine ⟨s', ?_, (fun hnil => nomatch hnil), fun _ => ⟨_, _, ?_, framed_linesOf hended ?_⟩⟩
    · rw [Session.callAll, hcall]
      exact hrest
    · refine hread'.trans (congrArg Except.ok ?_)
      simp [linesOf, endedText]
    · exact List.forall_mem_map.mpr hreadable

end Calls

/-! ### A log with an event in it -/

/-- A workspace whose log has an empty object on its one line. -/
def loggedDisk : Disk :=
  ⟨[(["w"], .directory), (["w", "log"], .file [0x7b, 0x7d, 0x0a])], ["w"]⟩

/-- A session that goes on with this log. -/
def loggedSession : Session :=
  { Session.ofDisk loggedDisk "" with eventLog? := some ⟨.ofLocation ["w", "log"], false⟩ }

/-- An event as it is, and an outcome with a line break in its error. -/
def twoCalls : List LogCall :=
  [.append ⟨"t1", "bundle", some "u", true, none, [("files", .int 3)]⟩,
   .record "t2" "compile" none false (some "a\nb") []]

/-- Two calls on a log that has a line already. -/
theorem framed_of_calls_twoCalls :
    loggedSession.eventLog? = some ⟨.ofLocation ["w", "log"], false⟩ ∧
      EventLog.OpensWith ⟨.ofLocation ["w", "log"], false⟩ loggedDisk [0x7b, 0x7d, 0x0a] ∧
      [0x7b, 0x7d, 0x0a].getLast? = some (0x0a : UInt8) ∧
      (∀ c ∈ twoCalls, IsReadableWithin none (.table c.event.metadata)) ∧
      ∃ s', loggedSession.callAll twoCalls = .ok s' ∧
        ∃ bytes lines, s'.disk.read (.ofLocation ["w", "log"]) = .ok bytes ∧
          Framed none [0x7b, 0x7d, 0x0a] (twoCalls.map LogCall.event) bytes lines := by
  -- the log is found where it was opened
  have hwalk : loggedDisk.walk true (.ofLocation ["w", "log"]) =
      .ok (.entry ["w", "log"] (.file [0x7b, 0x7d, 0x0a])) := by
    refine Disk.walk_eq_ok_iff.mpr ⟨?_, .down rfl ⟨by decide, by decide⟩ rfl nofun ?_⟩
    · simp [Disk.holdsNull_eq, FilePath.ofLocation]
    · exact .down rfl ⟨by decide, by decide⟩ rfl nofun (.arrived rfl)
  have hopens : EventLog.OpensWith ⟨.ofLocation ["w", "log"], false⟩ loggedDisk
      [0x7b, 0x7d, 0x0a] := .present (Disk.read_eq_ok_iff.mpr ⟨_, hwalk⟩)
  have hreadable : ∀ c ∈ twoCalls, IsReadableWithin none (.table c.event.metadata) := by
    have hcount : IsReadableWithin none (.int 3) := .int fun limit hlimit => nomatch hlimit
    simp only [twoCalls, List.forall_mem_cons]
    exact ⟨.table (by decide) (List.forall_mem_singleton.mpr hcount),
      .table List.nodup_nil fun _ hp => absurd hp List.not_mem_nil, by simp⟩
  obtain ⟨s', hcalls, -, hfile⟩ :=
    framed_of_calls none (s := loggedSession) rfl hopens (.inr rfl) twoCalls hreadable
  exact ⟨rfl, hopens, rfl, hreadable, s', hcalls, hfile (by simp [twoCalls])⟩

end Packwright
