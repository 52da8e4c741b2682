/-
# Loggers from the configuration

`ready.h`: the definitions of loggers that are read from a YAML document, and the listener of the
variable `logs` that makes the loggers agree with a new value.

A value is a `std::set<LoggerDefine>`, ordered by name, but compared by content.  The listener sets up
the loggers whose definition is new or has changed and switches those off that are no longer
named.  An appender definition whose type is none of the two known ones is reported by the decoder
and kept, with type `0`; the listener then calls `setFormatter` on a null pointer.  And it makes the formatter
of every appender, for which `init` takes the pattern apart; a pattern that ends in a bare `%d` is read past its end
there.  One of the two happens for every value with such a definition, since the value before has none
(`listener_isSome`).

An exception of the decoder is caught by `fromString`.
-/

import Mathlib.Data.List.Forall2
import Mathlib.Data.List.Lex
import Wuchat.Config.Yaml
import Wuchat.Foundation.OrdSet
import Wuchat.Log.Patterns

namespace Wuchat
namespace Log

open Config (Node)
open Foundation

/-- Bytes in their order, and with them texts: a `std::set` of definitions is in the order of their names. -/
instance instLinearOrderUInt8 : LinearOrder UInt8 where
  le_refl := UInt8.le_refl
  le_trans _ _ _ := UInt8.le_trans
  le_antisymm _ _ := UInt8.le_antisymm
  le_total := UInt8.le_total
  lt_iff_le_not_ge a b := by
    rw [UInt8.not_le]
    exact ⟨fun h => ⟨UInt8.le_of_lt h, h⟩, And.right⟩
  toDecidableLE := inferInstance

/-! ### Definitions -/

/-- `LogAppenderDefine`; the type is `1` for a file and `2` for the console. -/
structure LogAppenderDefine where
  type : Nat
  pattern : Bytes
  file : Bytes
  deriving DecidableEq, Repr

/-- `LoggerDefine`. -/
structure LoggerDefine where
  name : Bytes
  level : LogLevel
  appenders : List LogAppenderDefine
  deriving DecidableEq, Repr

/-! ### The decoder -/

/-- `if (appender["pattern"].IsDefined()) pattern = …`. -/
def castPattern (appender : Node) : Except String Bytes := do
  match ← appender.get (str "pattern") with
  | none => pure []
  | some node => Node.asString (some node)

/-- One turn of the loop over `node["appenders"]`; an appender without a type is left out. -/
def castAppender (appender : Node) : Except String (Option LogAppenderDefine) := do
  match ← appender.get (str "type") with
  | none => pure none
  | some node => do
    let type ← Node.asString (some node)
    if type = str "FileLogAppender" then do
      let file ← Node.asString (← appender.get (str "file"))
      let pattern ← castPattern appender
      pure (some ⟨1, pattern, file⟩)
    else if type = str "StdoutLogAppender" then do
      let pattern ← castPattern appender
      pure (some ⟨2, pattern, []⟩)
    else pure (some ⟨0, [], []⟩)

/-- `LexicalCast<std::string, LoggerDefine>`. -/
def castLogger (node : Node) : Except String LoggerDefine := do
  match ← node.get (str "name") with
  | none => throw "log config name is null"
  | some name => do
    let name ← Node.asString (some name)
    let level ← match ← node.get (str "level") with
      | none => pure []
      | some level => Node.asString (some level)
    let appenders ← match ← node.get (str "appenders") with
      | none => pure []
      | some appenders => do (← appenders.items).mapM castAppender
    pure ⟨name, LogLevel.FromString level, appenders.filterMap id⟩

/-- `LexicalCast<std::string, std::set<LoggerDefine>>`. -/
def castLoggers (doc : Node) : Except String (List LoggerDefine) := do
  (← doc.items).foldlM (fun defs node => do
    let loggerDefine ← castLogger node
    pure (OrdSet.insert LoggerDefine.name loggerDefine defs)) []

/-! ### The loggers and the listener -/

/-- What kind of appender it is. -/
inductive AppenderKind
  | file (name : Bytes)
  | stdout
  deriving DecidableEq, Repr

/-- `LogAppender`. -/
structure LogAppender where
  kind : AppenderKind
  m_formatter : LogFormatter
  deriving DecidableEq, Repr

/-- `Logger`. -/
structure Logger where
  level : LogLevel
  appenders : List LogAppender
  deriving DecidableEq, Repr

/-- `LoggerManager::m_loggers`. -/
abbrev Loggers := OrdMap Bytes Logger

/-- `LoggerManager::getLogger(name)`, as the logger found or made. -/
def getLogger (name : Bytes) (loggers : Loggers) : Logger :=
  (loggers.find bytesLess name).getD ⟨.DEBUG, []⟩

/-- The appender of a definition; `none` when `setFormatter` is called on a null pointer, or when the pattern is read
past its end. -/
def newAppender (appender : LogAppenderDefine) : Option LogAppender := do
  let logAppender : Option AppenderKind :=
    if appender.type = 1 then some (.file appender.file) else if appender.type = 2 then some .stdout else none
  let formatter ← (LogFormatter.init (if appender.pattern ≠ [] then appender.pattern else defaultPattern)).result
  let kind ← logAppender
  some ⟨kind, formatter⟩

/-- A logger set up as its definition says: its level, no appenders, and then one after the other. -/
def configure (val : LoggerDefine) (loggers : Loggers) : Option Loggers := do
  let logger := { getLogger val.name loggers with level := val.level, appenders := [] }
  let logger ← val.appenders.foldlM (fun (logger : Logger) appender => do
    let logAppender ← newAppender appender
    some { logger with appenders := logger.appenders ++ [logAppender] }) logger
  some (loggers.set bytesLess val.name logger)

/-- One turn of the first loop of the listener. -/
def addLogger (oldVal : List LoggerDefine) (loggers : Loggers) (val : LoggerDefine) : Option Loggers :=
  match OrdSet.find LoggerDefine.name val.name oldVal with
  | none => configure val loggers
  | some it => if val = it then some loggers else configure val loggers

/-- One turn of the second loop of the listener. -/
def dropLogger (newVal : List LoggerDefine) (loggers : Loggers) (val : LoggerDefine) : Loggers :=
  match OrdSet.find LoggerDefine.name val.name newVal with
  | none => loggers.set bytesLess val.name { getLogger val.name loggers with level := .UNKNOWN, appenders := [] }
  | some _ => loggers

/-- The listener of `LogInit`. -/
def listener (oldVal newVal : List LoggerDefine) (loggers : Loggers) : Option Loggers := do
  let loggers ← newVal.foldlM (addLogger oldVal) loggers
  some (oldVal.foldl (dropLogger newVal) loggers)

/-- The elements of a set that was read are in order. -/
theorem sorted_castLoggers {doc : Node} {val : List LoggerDefine} (h : castLoggers doc = .ok val) :
    OrdSet.Sorted LoggerDefine.name val := by
  rw [castLoggers] at h
  cases hitems : doc.items with
  | error e =>
    rw [hitems] at h
    cases h
  | ok nodes =>
    rw [hitems] at h
    replace h : nodes.foldlM (fun defs node => do
        let loggerDefine ← castLogger node
        pure (OrdSet.insert LoggerDefine.name loggerDefine defs)) [] = Except.ok val := h
    have hgen : ∀ defs : List LoggerDefine, OrdSet.Sorted LoggerDefine.name defs →
        nodes.foldlM (fun defs node => do
          let loggerDefine ← castLogger node
          pure (OrdSet.insert LoggerDefine.name loggerDefine defs)) defs = Except.ok val →
        OrdSet.Sorted LoggerDefine.name val := by
      clear h hitems
      induction nodes with
      | nil =>
        rintro defs hdefs h
        cases h
        exact hdefs
      | cons node nodes ih =>
        intro defs hdefs h
        rw [List.foldlM_cons] at h
        cases hnode : castLogger node with
        | error e =>
          rw [hnode] at h
          cases h
        | ok loggerDefine =>
          rw [hnode] at h
          exact ih _ hdefs.insert h
    exact hgen [] List.Pairwise.nil h

/-- The variable `logs` and the loggers. -/
structure Logs where
  value : List LoggerDefine
  loggers : Loggers
  sorted : OrdSet.Sorted LoggerDefine.name value

/-- `g_logDefines->fromString(doc)`: a document that cannot be read is reported, and an equal value is
no change. -/
def Logs.update (doc : Node) (s : Logs) : Option Logs :=
  match h : castLoggers doc with
  | .error _ => some s
  | .ok val =>
    if val = s.value then some s
    else do
      let loggers ← listener s.value val s.loggers
      some ⟨val, loggers, sorted_castLoggers h⟩

/-! ### What the listener is for -/

/-- The pattern of a definition, or the default. -/
def LogAppenderDefine.ownPattern (d : LogAppenderDefine) : Bytes := if d.pattern = [] then defaultPattern else d.pattern

/-- The appender is the one of the definition: of its type, with the formatter that its pattern gives. -/
def LogAppenderDefine.Describes (d : LogAppenderDefine) (appender : LogAppender) : Prop :=
  (d.type = 1 ∧ appender.kind = .file d.file ∨ d.type = 2 ∧ appender.kind = .stdout) ∧
    LogFormatter.init d.ownPattern = .ended appender.m_formatter ∧ appender.m_formatter.m_pattern = d.ownPattern

/-- The logger is as its definition says. -/
def LoggerDefine.Describes (d : LoggerDefine) (logger : Logger) : Prop :=
  logger.level = d.level ∧ List.Forall₂ LogAppenderDefine.Describes d.appenders logger.appenders

/-- The loggers of all definitions are as they say. -/
def Logs.Agrees (s : Logs) : Prop :=
  ∀ d ∈ s.value, ∃ logger, s.loggers.find bytesLess d.name = some logger ∧ d.Describes logger

/-- No definition has the name. -/
def Unnamed (name : Bytes) (val : List LoggerDefine) : Prop := ∀ d ∈ val, d.name ≠ name

/-- **What an update does:** the loggers agree with the new value, those of the old value alone are
switched off, and all others are as they were. -/
structure Reconciled (s s' : Logs) : Prop where
  agrees : s'.Agrees
  dropped : ∀ d ∈ s.value, Unnamed d.name s'.value → s'.loggers.find bytesLess d.name = some ⟨.UNKNOWN, []⟩
  others : ∀ name, Unnamed name s.value → Unnamed name s'.value →
    s'.loggers.find bytesLess name = s.loggers.find bytesLess name

/-- Every update of a sequence completes and does what it is for. -/
def Logs.RunsWell : List Node → Logs → Prop
  | [], _ => True
  | doc :: docs, s => ∃ s', s.update doc = some s' ∧ Reconciled s s' ∧ s'.RunsWell docs

/-- The type is one of the two, and the pattern does not end in a `%d` with nothing behind it. -/
def LogAppenderDefine.Usable (d : LogAppenderDefine) : Prop :=
  (d.type = 1 ∨ d.type = 2) ∧ ¬ LogFormatter.EndsInBareDate d.pattern

/-- Whether an appender can be built can be computed. -/
instance (d : LogAppenderDefine) : Decidable d.Usable := inferInstanceAs (Decidable (_ ∧ ¬ _))

/-- **All appenders of a value can be made.** -/
def AllUsable (val : List LoggerDefine) : Prop := ∀ d ∈ val, ∀ a ∈ d.appenders, a.Usable

/-- So can whether all can. -/
instance (val : List LoggerDefine) : Decidable (AllUsable val) :=
  inferInstanceAs (Decidable (∀ d ∈ val, ∀ a ∈ d.appenders, a.Usable))

/-! ### One logger -/

variable {loggers loggers' : Loggers} {oldVal newVal vals : List LoggerDefine} {d : LoggerDefine} {name : Bytes}

/-- The logger that was set. -/
theorem find_set_eq (name : Bytes) (logger : Logger) (loggers : Loggers) :
    (loggers.set bytesLess name logger).find bytesLess name = some logger :=
  OrdMap.find_set_self bytesLess_keyed rfl logger loggers

/-- The others are left. -/
theorem find_set_ne {name' : Bytes} (h : name' ≠ name) (logger : Logger) (loggers : Loggers) :
    (loggers.set bytesLess name logger).find bytesLess name' = loggers.find bytesLess name' :=
  OrdMap.find_set_of_ne bytesLess_keyed h logger loggers

/-- The pattern that is used ends in a bare date only if the one of the definition does. -/
theorem endsInBareDate_ownPattern (a : LogAppenderDefine) :
    LogFormatter.EndsInBareDate a.ownPattern ↔ LogFormatter.EndsInBareDate a.pattern := by
  unfold LogAppenderDefine.ownPattern
  split
  · rename_i hempty
    rw [hempty, show defaultPattern = _ from str_ofList _]
    exact iff_of_false (by decide) (by decide)
  · exact Iff.rfl

/-- **`newAppender` makes the appender of the definition.** -/
theorem newAppender_eq_some {a : LogAppenderDefine} {appender : LogAppender} :
    newAppender a = some appender ↔ a.Describes appender := by
  obtain ⟨kind, formatter⟩ := appender
  have hpattern : (if a.pattern ≠ [] then a.pattern else defaultPattern) = a.ownPattern := ite_not ..
  rw [newAppender, LogAppenderDefine.Describes, hpattern]
  cases hinit : LogFormatter.init a.ownPattern with
  | ended f =>
    have hkept : f.m_pattern = a.ownPattern := LogFormatter.init_pattern hinit
    by_cases h₁ : a.type = 1
    · simp only [h₁, if_true, LogFormatter.Ending.result, LogFormatter.Ending.ended.injEq]
      constructor
      · rintro ⟨⟩
        exact ⟨.inl ⟨trivial, rfl⟩, rfl, hkept⟩
      · rintro ⟨hkind, rfl, -⟩
        rcases hkind with ⟨-, rfl⟩ | ⟨hne, -⟩
        · rfl
        · cases hne
    by_cases h₂ : a.type = 2
    · simp only [h₂, if_true, LogFormatter.Ending.result, LogFormatter.Ending.ended.injEq]
      constructor
      · rintro ⟨⟩
        exact ⟨.inr ⟨trivial, rfl⟩, rfl, hkept⟩
      · rintro ⟨hkind, rfl, -⟩
        rcases hkind with ⟨hne, -⟩ | ⟨-, rfl⟩
        · cases hne
        · rfl
    · simp [h₁, h₂]
  | failed | outside | running => simp [LogFormatter.Ending.result]

/-- An appender can be made exactly when the type is known and the pattern does not end in a bare date. -/
theorem exists_newAppender (a : LogAppenderDefine) : (∃ appender, a.Describes appender) ↔ a.Usable := by
  rw [LogAppenderDefine.Usable, ← endsInBareDate_ownPattern, ← (LogFormatter.init_ended_iff a.ownPattern).2]
  constructor
  · rintro ⟨appender, hkind, hinit, -⟩
    exact ⟨hkind.imp And.left And.left, _, hinit⟩
  · rintro ⟨htype, f, hinit⟩
    have hkept := LogFormatter.init_pattern hinit
    rcases htype with htype | htype
    · exact ⟨⟨.file a.file, f⟩, .inl ⟨htype, rfl⟩, hinit, hkept⟩
    · exact ⟨⟨.stdout, f⟩, .inr ⟨htype, rfl⟩, hinit, hkept⟩

/-- Appenders are described when each of them can be built. -/
theorem exists_describes {ds : List LogAppenderDefine} :
    (∃ appenders, List.Forall₂ LogAppenderDefine.Describes ds appenders) ↔ ∀ a ∈ ds, a.Usable := by
  constructor
  · rintro ⟨appenders, h⟩
    induction h with
    | nil => exact nofun
    | cons hhead _ ih =>
      rw [List.forall_mem_cons]
      exact ⟨(exists_newAppender _).mp ⟨_, hhead⟩, ih⟩
  · intro h
    induction ds with
    | nil => exact ⟨[], .nil⟩
    | cons a ds ih =>
      rw [List.forall_mem_cons] at h
      obtain ⟨appender, hhead⟩ := (exists_newAppender a).mpr h.1
      obtain ⟨appenders, hrest⟩ := ih h.2
      exact ⟨appender :: appenders, .cons hhead hrest⟩

/-- The loop over the appenders of a definition. -/
theorem addAppenders_eq_some {logger' : Logger} : ∀ {ds : List LogAppenderDefine} {logger : Logger},
    ds.foldlM (fun (logger : Logger) appender => do
      let logAppender ← newAppender appender
      some { logger with appenders := logger.appenders ++ [logAppender] }) logger = some logger' ↔
    ∃ appenders, List.Forall₂ LogAppenderDefine.Describes ds appenders ∧
      logger' = { logger with appenders := logger.appenders ++ appenders }
  | [], logger => by
    rw [List.foldlM_nil]
    constructor
    · rintro ⟨⟩
      exact ⟨[], .nil, by rw [List.append_nil]⟩
    · rintro ⟨_, ⟨⟩, rfl⟩
      rw [List.append_nil]
      rfl
  | a :: ds, logger => by
    rw [List.foldlM_cons, Option.bind_eq_bind, Option.bind_eq_some_iff]
    constructor
    · rintro ⟨logger₁, hhead, hrest⟩
      obtain ⟨appender, hnew, hset⟩ := Option.bind_eq_some_iff.1 hhead
      obtain rfl := Option.some.inj hset
      obtain ⟨appenders, hall, rfl⟩ := addAppenders_eq_some.1 hrest
      refine ⟨appender :: appenders, .cons (newAppender_eq_some.1 hnew) hall, ?_⟩
      rw [List.append_assoc, List.singleton_append]
    · rintro ⟨_, hcons, rfl⟩
      obtain ⟨appender, appenders, hhead, hall, rfl⟩ := List.forall₂_cons_left_iff.1 hcons
      refine ⟨{ logger with appenders := logger.appenders ++ [appender] }, ?_, addAppenders_eq_some.2 ?_⟩
      · rw [newAppender_eq_some.2 hhead]
        rfl
      · refine ⟨appenders, hall, ?_⟩
        rw [List.append_assoc, List.singleton_append]

/-- **A logger is set up** exactly when its appenders can be made. -/
theorem configure_eq_some : configure d loggers = some loggers' ↔
    ∃ logger, d.Describes logger ∧ loggers' = loggers.set bytesLess d.name logger := by
  rw [configure]
  dsimp only
  rw [Option.bind_eq_bind, Option.bind_eq_some_iff]
  constructor
  · rintro ⟨logger, hloop, hset⟩
    obtain ⟨appenders, hall, rfl⟩ := addAppenders_eq_some.1 hloop
    exact ⟨_, ⟨rfl, hall⟩, (Option.some.inj hset).symm⟩
  · rintro ⟨⟨level, appenders⟩, ⟨rfl, hall⟩, rfl⟩
    exact ⟨_, addAppenders_eq_some.2 ⟨appenders, hall, rfl⟩, rfl⟩

/-! ### All loggers -/

/-- One turn of the first loop. -/
theorem addLogger_eq_some : addLogger oldVal loggers d = some loggers' ↔
    if OrdSet.find LoggerDefine.name d.name oldVal = some d then loggers' = loggers
    else ∃ logger, d.Describes logger ∧ loggers' = loggers.set bytesLess d.name logger := by
  rw [addLogger]
  cases hfind : OrdSet.find LoggerDefine.name d.name oldVal with
  | none =>
    rw [if_neg nofun]
    exact configure_eq_some
  | some it =>
    dsimp only
    by_cases heq : d = it
    · rw [if_pos heq, if_pos (congrArg some heq.symm), Option.some_inj]
      exact eq_comm
    · rw [if_neg heq, if_neg (fun h => heq (Option.some.inj h).symm)]
      exact configure_eq_some

/-- **The first loop:** a logger whose definition is in the old value stays, every other one of the new
value is as its definition says, and no other name is touched. -/
theorem addLoggers_spec : ∀ {vals : List LoggerDefine} {loggers loggers' : Loggers},
    OrdSet.Sorted LoggerDefine.name vals → vals.foldlM (addLogger oldVal) loggers = some loggers' →
    (∀ d ∈ vals, if OrdSet.find LoggerDefine.name d.name oldVal = some d then
        loggers'.find bytesLess d.name = loggers.find bytesLess d.name
      else ∃ logger, loggers'.find bytesLess d.name = some logger ∧ d.Describes logger) ∧
    ∀ name, Unnamed name vals → loggers'.find bytesLess name = loggers.find bytesLess name
  | [], _, _, _, h => by
    cases h
    exact ⟨nofun, fun _ _ => rfl⟩
  | d :: vals, loggers, loggers', hsorted, h => by
    rw [List.foldlM_cons, Option.bind_eq_bind, Option.bind_eq_some_iff] at h
    obtain ⟨loggers₁, hhead, hrest⟩ := h
    obtain ⟨hlt, hsorted⟩ := List.pairwise_cons.1 hsorted
    obtain ⟨hvals, hothers⟩ := addLoggers_spec hsorted hrest
    have hfresh : Unnamed d.name vals := fun e he => (hlt e he).ne'
    rw [addLogger_eq_some] at hhead
    -- the turn touches the name of its definition alone
    have hframe : ∀ name, name ≠ d.name → loggers₁.find bytesLess name = loggers.find bytesLess name := by
      intro name hne
      split at hhead
      · rw [hhead]
      · obtain ⟨logger, -, rfl⟩ := hhead
        exact find_set_ne hne logger loggers
    constructor
    · rw [List.forall_mem_cons]
      constructor
      · rw [hothers d.name hfresh]
        split at hhead
        · rename_i hfind
          rw [if_pos hfind, hhead]
        · rename_i hfind
          obtain ⟨logger, hdescribes, rfl⟩ := hhead
          rw [if_neg hfind]
          exact ⟨logger, find_set_eq _ _ _, hdescribes⟩
      · intro e he
        have hsame := hframe e.name (hfresh e he)
        rw [← hsame]
        exact hvals e he
    · intro name hname
      rw [hothers name (fun e he => hname e (List.mem_cons_of_mem _ he)),
        hframe name (hname d List.mem_cons_self).symm]

/-- **The first loop completes** exactly when the appenders of the definitions that are new or changed can be made. -/
theorem addLoggers_isSome : ∀ (vals : List LoggerDefine) (loggers : Loggers),
    (vals.foldlM (addLogger oldVal) loggers).isSome ↔
      ∀ d ∈ vals, OrdSet.find LoggerDefine.name d.name oldVal = some d ∨ ∀ a ∈ d.appenders, a.Usable
  | [], _ => by simp
  | d :: vals, loggers => by
    rw [List.foldlM_cons, List.forall_mem_cons, Option.bind_eq_bind, Option.isSome_iff_exists]
    simp only [Option.bind_eq_some_iff, addLogger_eq_some]
    constructor
    · rintro ⟨loggers', loggers₁, hhead, hrest⟩
      refine ⟨?_, (addLoggers_isSome vals loggers₁).1 (Option.isSome_iff_exists.2 ⟨_, hrest⟩)⟩
      split at hhead
      · rename_i hfind
        exact .inl hfind
      · obtain ⟨logger, hdescribes, -⟩ := hhead
        exact .inr (exists_describes.1 ⟨_, hdescribes.2⟩)
    · rintro ⟨hd, hrest⟩
      obtain ⟨loggers₁, hhead⟩ : ∃ loggers₁, if OrdSet.find LoggerDefine.name d.name oldVal = some d then
          loggers₁ = loggers else ∃ logger, d.Describes logger ∧ loggers₁ = loggers.set bytesLess d.name logger := by
        split
        · exact ⟨loggers, rfl⟩
        · rename_i hfind
          obtain ⟨appenders, hall⟩ := exists_describes.2 (hd.resolve_left hfind)
          exact ⟨_, ⟨d.level, appenders⟩, ⟨rfl, hall⟩, rfl⟩
      obtain ⟨loggers', hloop⟩ := Option.isSome_iff_exists.1 ((addLoggers_isSome vals loggers₁).2 hrest)
      exact ⟨loggers', loggers₁, hhead, hloop⟩

/-- One turn of the second loop. -/
theorem find_dropLogger (loggers : Loggers) (d : LoggerDefine) (name : Bytes) :
    (dropLogger newVal loggers d).find bytesLess name =
      if d.name = name ∧ OrdSet.find LoggerDefine.name name newVal = none then some ⟨.UNKNOWN, []⟩
      else loggers.find bytesLess name := by
  rw [dropLogger]
  by_cases hname : d.name = name
  · subst hname
    cases hfind : OrdSet.find LoggerDefine.name d.name newVal with
    | none =>
      rw [if_pos ⟨rfl, rfl⟩]
      exact find_set_eq _ _ _
    | some it => rw [if_neg (fun h => nomatch h.2)]
  · rw [if_neg (fun h => hname h.1)]
    cases hfind : OrdSet.find LoggerDefine.name d.name newVal with
    | none => exact find_set_ne (Ne.symm hname) _ _
    | some it => rfl

/-- **The second loop:** a name of the old value alone is switched off. -/
theorem find_dropLoggers (newVal : List LoggerDefine) (name : Bytes) : ∀ (vals : List LoggerDefine) (loggers : Loggers),
    ((∃ d ∈ vals, d.name = name) ∧ OrdSet.find LoggerDefine.name name newVal = none →
      (vals.foldl (dropLogger newVal) loggers).find bytesLess name = some ⟨.UNKNOWN, []⟩) ∧
    (Unnamed name vals ∨ OrdSet.find LoggerDefine.name name newVal ≠ none →
      (vals.foldl (dropLogger newVal) loggers).find bytesLess name = loggers.find bytesLess name)
  | [], _ => ⟨fun h => absurd h.1 (by simp), fun _ => rfl⟩
  | d :: vals, loggers => by
    obtain ⟨hoff, hsame⟩ := find_dropLoggers newVal name vals (dropLogger newVal loggers d)
    rw [List.foldl_cons]
    constructor
    · rintro ⟨⟨e, he, hname⟩, hnone⟩
      by_cases hrest : ∃ d ∈ vals, d.name = name
      · exact hoff ⟨hrest, hnone⟩
      · -- no later definition has the name
        have hunnamed : Unnamed name vals := fun d hd hn => hrest ⟨d, hd, hn⟩
        have hd : d.name = name := by
          rcases List.mem_cons.1 he with rfl | he
          · exact hname
          · exact absurd hname (hunnamed e he)
        rw [hsame (.inl hunnamed), find_dropLogger, if_pos ⟨hd, hnone⟩]
    · intro h
      have hrest : Unnamed name vals ∨ OrdSet.find LoggerDefine.name name newVal ≠ none :=
        h.imp_left fun hun e he => hun e (List.mem_cons_of_mem _ he)
      rw [hsame hrest, find_dropLogger, if_neg]
      rintro ⟨hname, hnone⟩
      rcases h with hun | hsome
      · exact hun d List.mem_cons_self hname
      · exact hsome hnone

/-! ### Updates -/

/-- A name is not found when no logger has it. -/
theorem find_eq_none_iff (hsorted : OrdSet.Sorted LoggerDefine.name vals) :
    OrdSet.find LoggerDefine.name name vals = none ↔ Unnamed name vals := by
  refine ⟨fun h e he hname => ?_, OrdSet.find_eq_none⟩
  have hfind := hsorted.find_of_mem he
  rw [hname, h] at hfind
  cases hfind

/-- The appenders of a value that loggers agree with can be made. -/
theorem Logs.Agrees.allUsable {s : Logs} (h : s.Agrees) : AllUsable s.value := by
  intro d hd
  obtain ⟨logger, -, hdescribes⟩ := h d hd
  exact exists_describes.1 ⟨_, hdescribes.2⟩

/-- **The listener completes** exactly when all appenders of the new value can be made. -/
theorem listener_isSome {s : Logs} (h : s.Agrees) : (listener s.value newVal s.loggers).isSome ↔ AllUsable newVal := by
  have hloop : (listener s.value newVal s.loggers).isSome = (newVal.foldlM (addLogger s.value) s.loggers).isSome := by
    rw [listener]
    cases newVal.foldlM (addLogger s.value) s.loggers <;> rfl
  rw [hloop, addLoggers_isSome]
  refine forall₂_congr fun d hd => or_iff_right_of_imp fun hfind => ?_
  exact h.allUsable d (OrdSet.of_find hfind).1

/-- **What it leaves.** -/
theorem listener_reconciles {s s' : Logs} (h : s.Agrees)
    (hlistener : listener s.value s'.value s.loggers = some s'.loggers) : Reconciled s s' := by
  obtain ⟨loggers₁, hadd, hdrop⟩ := Option.bind_eq_some_iff.1 hlistener
  obtain ⟨hnew, hothers⟩ := addLoggers_spec s'.sorted hadd
  have hfind := fun name => find_dropLoggers s'.value name s.value loggers₁
  rw [Option.some.inj hdrop] at hfind
  refine ⟨?_, ?_, ?_⟩
  · intro d hd
    have hnamed : OrdSet.find LoggerDefine.name d.name s'.value ≠ none := by
      rw [s'.sorted.find_of_mem hd]
      exact nofun
    rw [(hfind d.name).2 (.inr hnamed)]
    have hd' := hnew d hd
    split at hd'
    · rename_i hold
      rw [hd']
      exact h d (OrdSet.of_find hold).1
    · exact hd'
  · intro d hd hun
    exact (hfind d.name).1 ⟨⟨d, hd, rfl⟩, (find_eq_none_iff s'.sorted).2 hun⟩
  · intro name hold hun
    rw [(hfind name).2 (.inl hold), hothers name hun]

/-- Loggers that agree need no change. -/
theorem Reconciled.refl {s : Logs} (h : s.Agrees) : Reconciled s s :=
  ⟨h, fun d hd hun => absurd rfl (hun d hd), fun _ _ _ => rfl⟩

/-- **One update** completes, and does what it is for, exactly when the document cannot be read or all its appenders
can be made. -/
theorem update_iff {s : Logs} (h : s.Agrees) (doc : Node) :
    (∃ s', s.update doc = some s' ∧ Reconciled s s') ↔ ∀ val, castLoggers doc = .ok val → AllUsable val := by
  unfold Logs.update
  split
  · rename_i e hcast
    refine ⟨fun _ val hval => ?_, fun _ => ⟨s, rfl, .refl h⟩⟩
    rw [hcast] at hval
    cases hval
  · rename_i val hcast
    have hval : (∀ val', castLoggers doc = .ok val' → AllUsable val') ↔ AllUsable val := by
      rw [hcast]
      exact ⟨fun hall => hall val rfl, fun husable val' heq => Except.ok.inj heq ▸ husable⟩
    rw [hval]
    split
    · rename_i heq
      exact ⟨fun _ => heq ▸ h.allUsable, fun _ => ⟨s, rfl, .refl h⟩⟩
    · rw [← listener_isSome h, Option.isSome_iff_exists]
      constructor
      · rintro ⟨s', hupdate, -⟩
        obtain ⟨loggers, hlistener, -⟩ := Option.bind_eq_some_iff.1 hupdate
        exact ⟨loggers, hlistener⟩
      · rintro ⟨loggers, hlistener⟩
        refine ⟨⟨val, loggers, sorted_castLoggers hcast⟩, ?_, listener_reconciles h hlistener⟩
        rw [hlistener]
        rfl

/-- **Exactly when the loggers follow the configuration:** over any sequence of updates, from loggers
that agree with the value at its start, every one completes without using a null appender (or a pattern behind its
end) and leaves the loggers as they should be exactly when no value that is read has an appender of unknown
type, or with a pattern that ends in a bare `%d`. -/
theorem runsWell_iff (s : Logs) (h : s.Agrees) (docs : List Node) :
    s.RunsWell docs ↔ ∀ doc ∈ docs, ∀ val, castLoggers doc = .ok val → AllUsable val := by
  induction docs generalizing s with
  | nil => exact ⟨fun _ => nofun, fun _ => trivial⟩
  | cons doc docs ih =>
    rw [List.forall_mem_cons, ← update_iff h doc]
    constructor
    · rintro ⟨s', hupdate, hrec, hrest⟩
      exact ⟨⟨s', hupdate, hrec⟩, (ih s' hrec.agrees).1 hrest⟩
    · rintro ⟨⟨s', hupdate, hrec⟩, hrest⟩
      exact ⟨s', hupdate, hrec, (ih s' hrec.agrees).2 hrest⟩

/-- The formatter of `LogFormatter()`. -/
def defaultFormatter : LogFormatter := ⟨false, defaultPattern,
  [.time defaultFormat, .tab, .string (str "["), .elapse, .string (str "ms]"), .tab, .threadId, .tab, .threadName, .tab,
    .fiberId, .tab, .string (str "["), .level, .string (str "]"), .tab, .string (str "["), .loggerName,
    .string (str "]"), .tab, .file, .string (str ":"), .line, .tab, .message, .newLine]⟩

example : LogFormatter.init defaultPattern = .ended defaultFormatter := by
  rw [defaultFormatter, show defaultPattern = _ from str_ofList _]
  decide

/-- The variable at its start, with the root logger. -/
def Logs.start : Logs :=
  ⟨[], [(str "root", ⟨.DEBUG, [⟨.stdout, defaultFormatter⟩]⟩)], List.Pairwise.nil⟩

/-- At the start there is nothing to agree with. -/
theorem agrees_start : Logs.start.Agrees := nofun

/-- A definition of the logger `a` with an appender of a type and a pattern. -/
def oneAppender (type pattern : Bytes) : Node :=
  .sequence [.map [(str "name", .scalar (str "a")),
    (str "appenders", .sequence [.map [(str "type", .scalar type), (str "pattern", .scalar pattern)]])]]

/-- First an appender to the console with a pattern of its own, and then no logger. -/
theorem runsWell_iff_stdout :
    Logs.start.RunsWell [oneAppender (str "StdoutLogAppender") (str "%d %m%N"), .null] := by
  refine (runsWell_iff Logs.start agrees_start _).mpr ?_
  simp only [List.forall_mem_cons, List.not_mem_nil, false_imp_iff, implies_true, and_true]
  constructor
  · intro val hval
    obtain rfl : _ = val := Except.ok.inj hval
    decide
  · intro val hval
    obtain rfl : _ = val := Except.ok.inj hval
    decide

/-- The value of `oneAppender` for an appender of a type. -/
theorem castLoggers_oneAppender :
    castLoggers (oneAppender (str "RemoteLogAppender") (str "%m%N")) = .ok [⟨str "a", .UNKNOWN, [⟨0, [], []⟩]⟩] ∧
      castLoggers (oneAppender (str "StdoutLogAppender") (str "%m %d")) =
        .ok [⟨str "a", .UNKNOWN, [⟨2, str "%m %d", []⟩]⟩] :=
  ⟨rfl, rfl⟩

/-- A document with an appender that cannot be made is the end of the run. -/
theorem not_runsWell {doc : Node} {val : List LoggerDefine} (hcast : castLoggers doc = .ok val)
    (hbad : ¬ AllUsable val) :
    ¬ Logs.start.RunsWell [doc] := by
  rintro ⟨s', hupdate, hrec, -⟩
  exact hbad ((update_iff agrees_start _).1 ⟨s', hupdate, hrec⟩ _ hcast)

/-- **An appender of an unknown type**, and one whose pattern ends in `%d`, are accepted by the decoder, and
the listener does not complete. -/
theorem update_unknownType :
    (listener [] [⟨str "a", .UNKNOWN, [⟨0, [], []⟩]⟩] Logs.start.loggers = none ∧
      ¬ Logs.start.RunsWell [oneAppender (str "RemoteLogAppender") (str "%m%N")]) ∧
    (listener [] [⟨str "a", .UNKNOWN, [⟨2, str "%m %d", []⟩]⟩] Logs.start.loggers = none ∧
      ¬ Logs.start.RunsWell [oneAppender (str "StdoutLogAppender") (str "%m %d")]) := by
  obtain ⟨htype, hpattern⟩ := castLoggers_oneAppender
  exact ⟨⟨rfl, not_runsWell htype (by decide)⟩, ⟨rfl, not_runsWell hpattern (by decide)⟩⟩

end Log
end Wuchat
