/-
# The appender that writes to a file

`FileLogAppender` of `log.cpp`.

An event whose time is three or more above `m_lastTime` closes the file and opens it again, and
`open` with its default mode cuts an existing file to nothing.  So what the events before it
wrote is lost (`length_file_of_reopens`).  Nothing is lost when an event only ever
reopens the file while nothing has been written (`NothingCut`): in practice, when no event comes
three seconds after the first.

`m_lastTime + 3` is a sum of `uint64_t` and wraps.  The formatter is a parameter: `format` is what it
puts into the stream for an event.
-/

import Mathlib.Data.List.Induction
import Wuchat.Foundation.CString

namespace Wuchat
namespace Log

open Foundation

/-- `std::ofstream`: whether it has its file, `failbit`, and what is in the file. -/
structure Ofstream where
  isOpen : Bool
  fail : Bool
  file : Bytes
  deriving DecidableEq, Repr

namespace Ofstream

/-- `close()`. -/
def close (s : Ofstream) : Ofstream := if s.isOpen then { s with isOpen := false } else { s with fail := true }

/-- `open(name)`, which truncates the file; `opens` is whether it can be opened. -/
def openFile (opens : Bool) (s : Ofstream) : Ofstream :=
  if s.isOpen ∨ !opens then { s with fail := true } else ⟨true, false, []⟩

/-- Output to the stream. -/
def put (text : Bytes) (s : Ofstream) : Ofstream := if s.fail then s else { s with file := s.file ++ text }

end Ofstream

/-- The fields of `FileLogAppender` that `log` uses. -/
structure FileLogAppender where
  m_reopenError : Bool
  m_filestream : Ofstream
  m_lastTime : UInt64
  deriving DecidableEq, Repr

namespace FileLogAppender

/-- `reopen()`. -/
def reopen (opens : Bool) (a : FileLogAppender) : FileLogAppender :=
  let s := if a.m_filestream.fail then a.m_filestream else a.m_filestream.close
  let s := s.openFile opens
  { a with m_filestream := s, m_reopenError := s.fail }

/-- The constructor. -/
def new (opens : Bool) (file : Bytes) : FileLogAppender := reopen opens ⟨false, ⟨false, false, file⟩, 0⟩

section

variable {Event : Type} (getTime : Event → UInt64) (format : Event → Bytes)

/-- `log(event)`. -/
def log (opens : Bool) (event : Event) (a : FileLogAppender) : FileLogAppender :=
  let now := getTime event
  let a := if a.m_lastTime + 3 ≤ now then { a.reopen opens with m_lastTime := now } else a
  if a.m_reopenError then a else { a with m_filestream := a.m_filestream.put (format event) }

/-- A new appender on an empty file after some events, when the file can always be opened. -/
def logAll (events : List Event) : FileLogAppender :=
  events.foldl (fun a event => a.log getTime format true event) (new true [])

/-- `m_lastTime` after events. -/
def lastTime (events : List Event) : UInt64 :=
  events.foldl (fun last event => if last + 3 ≤ getTime event then getTime event else last) 0

/-- **No event that reopens the file comes after some output.** -/
def NothingCut (events : List Event) : Prop :=
  ∀ pre event post, events = pre ++ event :: post → lastTime getTime pre + 3 ≤ getTime event →
    pre.flatMap format = []

end

/-- The stream is open and has not failed. -/
structure Ready (a : FileLogAppender) : Prop where
  isOpen : a.m_filestream.isOpen = true
  fail : a.m_filestream.fail = false
  noError : a.m_reopenError = false

/-- A file that can be opened is open and empty afterwards. -/
theorem reopen_eq {a : FileLogAppender} (h : a.Ready) :
    a.reopen true = { a with m_filestream := ⟨true, false, []⟩, m_reopenError := false } := by
  rw [reopen, Ofstream.close, if_neg (by rw [h.fail]; decide), if_pos h.isOpen]
  rfl

variable {Event : Type} (getTime : Event → UInt64) (format : Event → Bytes) {a : FileLogAppender}

/-- **One event:** the file is cut or not, and then gets the text. -/
theorem log_eq (h : a.Ready) (event : Event) :
    (a.log getTime format true event).Ready ∧
      (a.log getTime format true event).m_lastTime =
        (if a.m_lastTime + 3 ≤ getTime event then getTime event else a.m_lastTime) ∧
      (a.log getTime format true event).m_filestream.file =
        (if a.m_lastTime + 3 ≤ getTime event then [] else a.m_filestream.file) ++ format event := by
  rw [log]
  dsimp only
  split
  · rw [reopen_eq h]
    exact ⟨⟨rfl, rfl, rfl⟩, rfl, rfl⟩
  · rw [if_neg (by rw [h.noError]; decide), Ofstream.put, if_neg (by rw [h.fail]; decide)]
    exact ⟨⟨h.isOpen, h.fail, h.noError⟩, rfl, rfl⟩

/-- The last event comes behind the others. -/
theorem logAll_concat (events : List Event) (event : Event) :
    logAll getTime format (events ++ [event]) = (logAll getTime format events).log getTime format true event := by
  rw [logAll, List.foldl_append]
  rfl

/-- **After any events** the stream is fine, and `m_lastTime` is that of the last reopening. -/
theorem logAll_ready (events : List Event) : (logAll getTime format events).Ready ∧
    (logAll getTime format events).m_lastTime = lastTime getTime events := by
  induction events using List.reverseRecOn with
  | nil => exact ⟨⟨rfl, rfl, rfl⟩, rfl⟩
  | append_singleton events event ih =>
    obtain ⟨hready, hlast, -⟩ := log_eq getTime format ih.1 event
    rw [logAll_concat, lastTime, List.foldl_append]
    refine ⟨hready, hlast.trans ?_⟩
    rw [ih.2]
    rfl

/-- The file after one event more. -/
theorem file_concat (events : List Event) (event : Event) :
    (logAll getTime format (events ++ [event])).m_filestream.file =
      (if lastTime getTime events + 3 ≤ getTime event then []
        else (logAll getTime format events).m_filestream.file) ++ format event := by
  obtain ⟨hready, hlast⟩ := logAll_ready getTime format events
  rw [logAll_concat, (log_eq getTime format hready event).2.2, hlast]

/-- The file never has more than what was written. -/
theorem length_file_le (pre post : List Event) :
    (logAll getTime format (pre ++ post)).m_filestream.file.length ≤
      (logAll getTime format pre).m_filestream.file.length + (post.flatMap format).length := by
  induction post using List.reverseRecOn with
  | nil => simp
  | append_singleton post event ih =>
    rw [← List.append_assoc, file_concat, List.flatMap_append, List.flatMap_singleton, List.length_append,
      List.length_append]
    split
    · rw [List.length_nil]
      omega
    · omega

/-- **What was written before the file was opened again is lost.** -/
theorem length_file_of_reopens {pre : List Event} {event : Event} (post : List Event)
    (h : lastTime getTime pre + 3 ≤ getTime event) :
    (logAll getTime format (pre ++ event :: post)).m_filestream.file.length ≤
      ((event :: post).flatMap format).length := by
  have hle := length_file_le getTime format (pre ++ [event]) post
  rw [file_concat, if_pos h, List.nil_append, List.append_assoc, List.singleton_append] at hle
  rw [List.flatMap_cons, List.length_append]
  exact hle

/-- **Exactly when the file has the text of all events, in order:** when no event that reopens it
comes after some output. -/
theorem logAll_iff (getTime : Event → UInt64) (format : Event → Bytes) (events : List Event) :
    (logAll getTime format events).m_filestream.file = events.flatMap format ↔
      NothingCut getTime format events := by
  constructor
  · rintro hfile pre event post rfl hreopens
    have hle := length_file_of_reopens getTime format post hreopens
    rw [hfile, List.flatMap_append, List.length_append] at hle
    exact List.length_eq_zero_iff.1 (by omega)
  · intro h
    induction events using List.reverseRecOn with
    | nil => rfl
    | append_singleton events event ih =>
      have hbefore : NothingCut getTime format events := by
        rintro pre event' post rfl hreopens
        exact h pre event' (post ++ [event]) (by simp) hreopens
      rw [file_concat, List.flatMap_append, List.flatMap_singleton, ih hbefore]
      split
      · rename_i hreopens
        rw [h events event [] rfl hreopens]
      · rfl

/-- **Three seconds later the first line is gone.** -/
theorem logAll_threeSeconds :
    (logAll Prod.fst Prod.snd [((100 : UInt64), str "a"), (103, str "b")]).m_filestream.file = str "b" ∧
      ¬(logAll Prod.fst Prod.snd [((100 : UInt64), str "a"), (103, str "b")]).m_filestream.file =
        [((100 : UInt64), str "a"), (103, str "b")].flatMap Prod.snd := by
  decide

end FileLogAppender

end Log
end Wuchat
