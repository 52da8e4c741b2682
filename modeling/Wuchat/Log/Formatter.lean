/-
# The formatter of log events

`LogFormatter` of `log.cpp`: `init` takes a pattern apart into items, and `format` lets every item put
its text for an event into the stream.

`init` is a loop with an index into the pattern and two states: it collects the characters of a
string, or stands behind a `%`.  The text in the braces of `%d` goes to `data_format`, which is one
for the whole pattern.  The reads of the pattern that a test of the index guards are `p[i]?`; the one
behind the loop over the braces is not guarded, and `charAt` has no result behind the terminator.
The loop has fuel for one round more than the pattern has characters, and that is enough
(`scan_pattern`).

`localtime_r` and `strftime` are a parameter: the text they make of a format and a time.  The buffer for it
has 64 bytes, and the 0 that `strftime` returns for a longer text is not looked at: what is printed is not
defined then. -/

import Wuchat.Http.Message

namespace Wuchat
namespace Log

open Foundation
open Http (decimal)

/-- `LogLevel::Level`. -/
inductive LogLevel
  | UNKNOWN
  | DEBUG
  | INFO
  | WARN
  | ERROR
  | FATAL
  deriving DecidableEq, Repr

/-- `LogLevel::FromString(str)`. -/
def LogLevel.FromString (text : Bytes) : LogLevel :=
  if text = str "DEBUG" then .DEBUG
  else if text = str "INFO" then .INFO
  else if text = str "WARN" then .WARN
  else if text = str "ERROR" then .ERROR
  else if text = str "FATAL" then .FATAL
  else .UNKNOWN

/-- The fields of `LogEvent`. -/
structure LogEvent where
  m_loggerName : Bytes
  m_level : LogLevel
  m_ss : Bytes
  m_file : Bytes
  m_line : Int32
  m_elapse : UInt32
  m_threadId : UInt32
  m_fiberId : UInt32
  m_time : UInt64
  m_threadName : Bytes
  deriving DecidableEq, Repr

/-- `LogLevel::ToString(level)`. -/
def LogLevel.ToString : LogLevel → Bytes
  | .DEBUG => str "DEBUG"
  | .INFO => str "INFO"
  | .WARN => str "WARN"
  | .ERROR => str "ERROR"
  | .FATAL => str "FATAL"
  | .UNKNOWN => str "UNKNOWN"

/-- `os << n` for an `int32_t`. -/
def signed (n : Int32) : Bytes := (if n < 0 then str "-" else []) ++ decimal n.toInt.natAbs

/-- `LogFormatter::FormatItem`, by its classes. -/
inductive FormatItem
  | message
  | level
  | loggerName
  | time (m_format : Bytes)
  | elapse
  | file
  | line
  | threadId
  | fiberId
  | threadName
  | newLine
  | tab
  | string (m_string : Bytes)
  deriving DecidableEq, Repr

/-- The format of `TimeFormatItem()`. -/
def defaultFormat : Bytes := str "%Y-%m-%d %H:%M:%S"

/-- The format of `TimeFormatItem(format)`. -/
def timeFormat (format : Bytes) : Bytes := if format.isEmpty then defaultFormat else format

/-- The `buf` of `TimeFormatItem::format`, when `strftime` is done with a text: without room for it and its terminator
the contents are not defined. -/
def buf (text : Bytes) : Option Bytes := if text.length < 64 then some text else none

/-- `format(os, event)` of an item, as what it puts into the stream. -/
def FormatItem.format (strftime : Bytes → UInt64 → Bytes) (event : LogEvent) : FormatItem → Option Bytes
  | message => some event.m_ss
  | level => some event.m_level.ToString
  | loggerName => some event.m_loggerName
  | time m_format => buf (strftime (cstr m_format) event.m_time)
  | elapse => some (decimal event.m_elapse.toNat)
  | file => some (cstr event.m_file)
  | line => some (signed event.m_line)
  | threadId => some (decimal event.m_threadId.toNat)
  | fiberId => some (decimal event.m_fiberId.toNat)
  | threadName => some event.m_threadName
  | newLine => some [10]
  | tab => some [9]
  | string m_string => some m_string

/-- `s_format_items`, with the argument of the constructor. -/
def s_format_items (c : UInt8) (fmt : Bytes) : Option FormatItem :=
  if c = 109 then some .message        -- m
  else if c = 112 then some .level     -- p
  else if c = 99 then some .loggerName -- c
  else if c = 100 then some (.time (timeFormat fmt)) -- d
  else if c = 114 then some .elapse    -- r
  else if c = 102 then some .file      -- f
  else if c = 108 then some .line      -- l
  else if c = 116 then some .threadId  -- t
  else if c = 98 then some .fiberId    -- b
  else if c = 110 then some .threadName -- n
  else if c = 78 then some .newLine    -- N
  else if c = 84 then some .tab        -- T
  else none

/-- The pattern of `LogFormatter()`. -/
def defaultPattern : Bytes :=
  str "%d\x7b%Y-%m-%d %H:%M:%S\x7d%T[%rms]%T%t%T%n%T%b%T[%p]%T[%c]%T%f:%l%T%m%N"

/-- `LogFormatter`. -/
structure LogFormatter where
  m_error : Bool
  m_pattern : Bytes
  m_items : List FormatItem
  deriving DecidableEq, Repr

namespace LogFormatter

/-- An entry of `patterns`: `{0, tmp}` or `{1, c}`. -/
inductive Piece
  | string (tmp : Bytes)
  | template (c : UInt8)
  deriving DecidableEq, Repr

/-- The variables of the loop in `init`. -/
structure Scan where
  patterns : List Piece
  tmp : Bytes
  data_format : Bytes
  parsing_string : Bool
  i : Nat
  deriving DecidableEq, Repr

/-- How the loop ends: with its variables, at the `break`, with a read behind the terminator, or out
of fuel. -/
inductive Ending (α : Type)
  | ended (a : α)
  | failed
  | outside
  | running
  deriving DecidableEq, Repr

/-- The result, if the loop ended within the pattern. -/
def Ending.result {α : Type} : Ending α → Option α
  | .ended a => some a
  | _ => none

/-- `m_pattern[i]`, up to the terminator. -/
def charAt (p : Bytes) (i : Nat) : Option UInt8 := if i = p.length then some 0 else p[i]?

/-- `if (!tmp.empty()) { patterns.emplace_back(0, tmp); }`. -/
def flush (tmp : Bytes) : List Piece := if tmp.isEmpty then [] else [.string tmp]

/-- The loop over the text in the braces, which is what is left from `i` on: the index it stops at. -/
def readFormat : Bytes → Nat → Bytes → Nat × Bytes
  | [], i, data_format => (i, data_format)
  | c :: rest, i, data_format =>
    if c ≠ 125 then readFormat rest (i + 1) (data_format ++ [c]) else (i, data_format)

/-- What follows `%d`, at `i`. -/
def readDate (p : Bytes) (s : Scan) : Ending Scan :=
  if p[s.i]?.any (· ≠ 123) then .ended s
  else
    let (i, data_format) := readFormat (p.drop (s.i + 1)) (s.i + 1) s.data_format
    match charAt p i with
    | none => .outside
    | some c => if c ≠ 125 then .failed else .ended { s with data_format, i := i + 1 }

/-- One round of the loop, on the character at `i`. -/
def round (p : Bytes) (s : Scan) (c : UInt8) : Ending Scan :=
  if c = 37 then
    if s.parsing_string then
      .ended { s with patterns := s.patterns ++ flush s.tmp, tmp := [], parsing_string := false, i := s.i + 1 }
    else .ended { s with patterns := s.patterns ++ [.template c], parsing_string := true, i := s.i + 1 }
  else if s.parsing_string then .ended { s with tmp := s.tmp ++ [c], i := s.i + 1 }
  else
    let s := { s with patterns := s.patterns ++ [.template c], parsing_string := true, i := s.i + 1 }
    if c ≠ 100 then .ended s else readDate p s

/-- The loop. -/
def scan (p : Bytes) : Nat → Scan → Ending Scan
  | 0, _ => .running
  | fuel + 1, s =>
    match p[s.i]? with
    | none => .ended s
    | some c =>
      match round p s c with
      | .ended s => scan p fuel s
      | r => r

/-- The items of the pieces, and whether one has none. -/
def addItems (data_format : Bytes) : List Piece → List FormatItem × Bool
  | [] => ([], false)
  | .string tmp :: rest =>
    let (items, error) := addItems data_format rest
    (.string tmp :: items, error)
  | .template c :: rest =>
    if c = 100 then
      let (items, error) := addItems data_format rest
      (.time (timeFormat data_format) :: items, error)
    else
      match s_format_items c [c] with
      | none => ([], true)
      | some item =>
        let (items, error) := addItems data_format rest
        (item :: items, error)

/-- The variables before the loop. -/
def Scan.start : Scan := ⟨[], [], [], true, 0⟩

/-- `LogFormatter(pattern)`, as `init` leaves it. -/
def init (pattern : Bytes) : Ending LogFormatter :=
  match scan pattern (pattern.length + 1) .start with
  | .running => .running
  | .outside => .outside
  | .failed => .ended ⟨true, pattern, []⟩
  | .ended s =>
    let (m_items, m_error) := addItems s.data_format (s.patterns ++ flush s.tmp)
    .ended { m_error, m_pattern := pattern, m_items }

/-- The loop over the items in `format`, as what it puts into the stream. -/
def formatItems (strftime : Bytes → UInt64 → Bytes) (event : LogEvent) : List FormatItem → Option Bytes
  | [] => some []
  | i :: rest => do
    let text ← i.format strftime event
    let texts ← formatItems strftime event rest
    some (text ++ texts)

/-- `format(event)`. -/
def format (strftime : Bytes → UInt64 → Bytes) (event : LogEvent) (f : LogFormatter) : Option Bytes :=
  formatItems strftime event f.m_items

end LogFormatter
end Log
end Wuchat
