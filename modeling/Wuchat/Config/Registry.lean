/-
# The variables of a configuration

`config.h`, `config.cpp`: `Config` keeps the variables of all types in one map by their names.
`lookup` makes a variable when its name is new, and hands out the one there is when it has the type that is
asked for; `loadFromYaml` gives each variable the text of every node under its name, one after the other.

Variables of different types stand in one map here as they do there: `Types` has the type of a value
and, for each type, the conversion from a text, whose results have that type.  The emitter of YAML
is `emit`.  Names are looked up by a `std::map`.

A listener may throw.  Then the value stays as it is, though the listeners before it were told of the new one.
`fromString` catches a `std::exception`; anything else ends the loading of the document it came from.  What a listener
does is a parameter, and may depend on all that happened to the variable before.  That a listener changes variables
itself is not modelled.

What becomes of a variable is told from the calls since it was made (`var_afterAll`): it keeps its type; a value that a
call offers is assigned when all listeners were told of it, each of the change from the value before (`Story`);
and where no listener throws that is the value offered last.  One thread that goes through `setValue` while the others
are in none does what is done here in one step (`setValue_run`).

The converted names, `::tolower`, are those of the document: a name in another case is not listed.
-/

import Wuchat.Config.ConfigVar
import Wuchat.Config.Yaml
import Wuchat.Foundation.Histories

namespace Wuchat
namespace Config

open Foundation

/-! ### Variables -/

/-- The types of variables: the type of a value, and `LexicalCast<std::string, T>`, none for an exception. -/
structure Types (τ α : Type) where
  typeOf : α → τ
  fromStr : (t : τ) → Bytes → Option {v : α // typeOf v = t}

/-- `ConfigVar`: `m_val`, the keys of `m_callbacks` in their order, and what happened since the variable was made. -/
structure Var (α : Type) where
  val : α
  m_callbacks : List Nat
  log : List (Event α)

/-- How a call of a listener ends: it returns, throws a `std::exception`, or throws something else. -/
inductive Ending
  | returns
  | exception
  | other
  deriving DecidableEq, Repr

/-- What the listeners do: the ending of a call, by the name of the variable, all that happened to it up to the call,
and the key of the listener. -/
abbrev Listeners (α : Type) := Bytes → List (Event α) → Nat → Ending

variable {τ α : Type} (T : Types τ α) (emit : Node → Bytes) (listener : Listeners α)

/-- The loop over the listeners in `setValue(val)`, which an exception leaves. -/
def Var.notify (ends : List (Event α) → Nat → Ending) (val : α) : List Nat → Var α → Ending × Var α
  | [], v => (.returns, v)
  | i :: rest, v =>
    let v := { v with log := v.log ++ [.called i v.val val] }
    match ends v.log i with
    | .returns => v.notify ends val rest
    | e => (e, v)

/-- `setValue(val)`, with nothing in between. -/
def Var.setValue [DecidableEq α] (ends : List (Event α) → Nat → Ending) (v : Var α) (val : α) : Ending × Var α :=
  if val = v.val then (.returns, v)
  else match v.notify ends val v.m_callbacks with
    | (.returns, v) => (.returns, { v with val, log := v.log ++ [.assigned val] })
    | r => r

/-- `fromString(text)` of a `ConfigVar` of the type `t`: a `std::exception` is caught. -/
def Var.fromStringAs [DecidableEq α] (ends : List (Event α) → Nat → Ending) (t : τ) (v : Var α) (text : Bytes) :
    Ending × Var α :=
  match T.fromStr t text with
  | none => (.returns, v)
  | some val =>
    match v.setValue ends val.1 with
    | (.other, v) => (.other, v)
    | (_, v) => (.returns, v)

/-- `fromString(text)`. -/
def Var.fromString [DecidableEq α] (ends : List (Event α) → Nat → Ending) (v : Var α) (text : Bytes) :
    Ending × Var α :=
  v.fromStringAs T ends (T.typeOf v.val) text

/-- A new key among others that are in order. -/
def insertKey (key : Nat) : List Nat → List Nat
  | [] => [key]
  | k :: ks => if key < k then key :: k :: ks else if key = k then k :: ks else k :: insertKey key ks

/-- `addListener(callback)`, with the key that the counter of the type gives. -/
def Var.addListener (v : Var α) (key : Nat) : Var α := { v with m_callbacks := insertKey key v.m_callbacks }

/-- `delListener(key)`. -/
def Var.delListener (v : Var α) (key : Nat) : Var α := { v with m_callbacks := v.m_callbacks.filter (· ≠ key) }

/-- `clearListener()`. -/
def Var.clearListener (v : Var α) : Var α := { v with m_callbacks := [] }

/-- The text of a node for `fromString`. -/
def Node.text : Node → Bytes
  | .scalar text => text
  | node => emit node

/-! ### The map -/

/-- `Config::getData()`. -/
abbrev ConfigVarMap (α : Type) := OrdMap Bytes (Var α)

/-- `lookupBase(name)`. -/
def lookupBase (name : Bytes) (c : ConfigVarMap α) : Option (Var α) := OrdMap.find bytesLess name c

/-- A call of the variable with a name, if there is one, with the ending of the call. -/
def callVar (name : Bytes) (f : Var α → Ending × Var α) (c : ConfigVarMap α) : Ending × ConfigVarMap α :=
  match lookupBase name c with
  | none => (.returns, c)
  | some v => ((f v).1, OrdMap.set bytesLess name (f v).2 c)

/-- A call that does not throw. -/
def withVar (name : Bytes) (f : Var α → Var α) (c : ConfigVarMap α) : ConfigVarMap α :=
  (callVar name (fun v => (.returns, f v)) c).2

/-- What `lookup` does: hands out a variable, a null pointer, or throws. -/
inductive Answer
  | variable
  | null
  | invalid_argument
  deriving DecidableEq, Repr

/-- `lookup<T>(name, default_val)`. -/
def lookup [DecidableEq τ] (name : Bytes) (default_val : α) (c : ConfigVarMap α) : Answer × ConfigVarMap α :=
  match lookupBase name c with
  | some v => (if T.typeOf v.val = T.typeOf default_val then .variable else .null, c)
  | none =>
    if validName name then (.variable, OrdMap.set bytesLess name ⟨default_val, [], []⟩ c)
    else (.invalid_argument, c)

/-- One turn of the loop of `loadFromYaml`. -/
def loadNode [DecidableEq α] (i : Bytes × Node) (c : ConfigVarMap α) : Ending × ConfigVarMap α :=
  if i.1 = [] then (.returns, c)
  else callVar (i.1.map tolower) (fun v => v.fromString T (listener (i.1.map tolower)) (i.2.text emit)) c

/-- The loop of `loadFromYaml`, which an exception leaves. -/
def loadNodes [DecidableEq α] : List (Bytes × Node) → ConfigVarMap α → ConfigVarMap α
  | [], c => c
  | i :: rest, c =>
    match loadNode T emit listener i c with
    | (.returns, c) => loadNodes rest c
    | (_, c) => c

/-- `loadFromYaml(root)`. -/
def loadFromYaml [DecidableEq α] (root : Node) (c : ConfigVarMap α) : ConfigVarMap α :=
  loadNodes T emit listener (listAllMember [] root) c

/-! ### Calls -/

/-- The calls that change something.  Those of a variable are through a pointer that `lookup` has handed out, `setValue`
through one of the type of the value. -/
inductive Call (α : Type)
  | lookup (name : Bytes) (default_val : α)
  | setValue (name : Bytes) (val : α)
  | addListener (name : Bytes) (key : Nat)
  | delListener (name : Bytes) (key : Nat)
  | clearListener (name : Bytes)
  | loadFromYaml (root : Node)

/-- The map after a call, whether it has thrown or not. -/
def after [DecidableEq τ] [DecidableEq α] (c : ConfigVarMap α) : Call α → ConfigVarMap α
  | .lookup name default_val => (lookup T name default_val c).2
  | .setValue name val =>
    (callVar name (fun v =>
      if T.typeOf val = T.typeOf v.val then v.setValue (listener name) val else (.returns, v)) c).2
  | .addListener name key => withVar name (·.addListener key) c
  | .delListener name key => withVar name (·.delListener key) c
  | .clearListener name => withVar name (·.clearListener) c
  | .loadFromYaml root => loadFromYaml T emit listener root c

/-- The map after some calls. -/
def afterAll [DecidableEq τ] [DecidableEq α] (calls : List (Call α)) : ConfigVarMap α :=
  calls.foldl (after T emit listener) []

/-- The value a node gives a variable of the type `t` with a name. -/
def given (name : Bytes) (t : τ) (i : Bytes × Node) : Option α :=
  if i.1 = name ∧ name ≠ [] then (T.fromStr t (i.2.text emit)).map Subtype.val else none

/-- **The values that a call offers** to the variable of the type `t` with a name, in their order: a document,
those of its nodes under the name that can be converted. -/
def offered [DecidableEq τ] (name : Bytes) (t : τ) : Call α → List α
  | .setValue n val => if n = name ∧ T.typeOf val = t then [val] else []
  | .loadFromYaml root => (listAllMember [] root).filterMap (given T emit name t)
  | _ => []

/-- The default value of a call that can make the variable with a name. -/
def makes (name : Bytes) : Call α → Option α
  | .lookup n default_val => if n = name ∧ validName name then some default_val else none
  | _ => none

/-- The default value that the variable with a name was made with, and the calls since then. -/
def created (name : Bytes) : List (Call α) → Option (α × List (Call α))
  | [] => none
  | call :: calls =>
    match makes name call with
    | some default_val => some (default_val, calls)
    | none => created name calls

/-- The calls of some listeners for a change. -/
def callsOf (ls : List Nat) (old new : α) : List (Event α) := ls.map (.called · old new)

/-- **What can happen to a variable** that was made with the value `a`: the listeners change; some of them are told of a
new value, and the last of these throws; or all of them are told, and the value is assigned. -/
inductive Story (a : α) : List Nat → α → List (Event α) → Prop
  | made : Story a [] a []
  | listeners {ls : List Nat} {val : α} {log : List (Event α)} (ls' : List Nat) (h : Story a ls val log) :
      Story a ls' val log
  | thrown {done rest : List Nat} {val new : α} {log : List (Event α)} (h : Story a (done ++ rest) val log)
      (hne : new ≠ val) (hdone : done ≠ []) : Story a (done ++ rest) val (log ++ callsOf done val new)
  | assigned {ls : List Nat} {val new : α} {log : List (Event α)} (h : Story a ls val log) (hne : new ≠ val) :
      Story a ls new (log ++ callsOf ls val new ++ [.assigned new])

/-- The value that a call of a listener or an assignment is about. -/
def Event.value : Event α → α
  | .called _ _ new => new
  | .assigned new => new

/-- No listener of the variable with a name throws, and none of another one anything but a `std::exception`. -/
def Calm (name : Bytes) : Prop := (∀ log l, listener name log l = .returns) ∧ ∀ n log l, listener n log l ≠ .other

/-- **What is known of a variable** that was made with the value `a` and was offered some values since: its
type, its story, that it holds what was assigned last, and that what its listeners were told of and what was
assigned were offered. -/
structure Kept (a : α) (offers : List α) (v : Var α) : Prop where
  type : T.typeOf v.val = T.typeOf a
  story : Story a v.m_callbacks v.val v.log
  holds : installed a v.log = v.val
  offered : ∀ e ∈ v.log, e.value ∈ offers

/-! ### One variable -/

section Var

variable {v : Var α} {ends : List (Event α) → Nat → Ending} {val : α}

variable (ends val) in
/-- **The loop over the listeners** tells those up to one that throws, or all. -/
theorem notify_spec (ls : List Nat) (v : Var α) : ∃ done rest, ls = done ++ rest ∧
    (v.notify ends val ls).2 = { v with log := v.log ++ callsOf done v.val val } ∧
    (((v.notify ends val ls).1 = .returns ∧ rest = []) ∨ ((v.notify ends val ls).1 ≠ .returns ∧ done ≠ [])) := by
  induction ls generalizing v with
  | nil => exact ⟨[], [], rfl, by simp [Var.notify, callsOf], .inl ⟨rfl, rfl⟩⟩
  | cons l ls ih =>
    rw [Var.notify]
    dsimp only
    split
    · obtain ⟨done, rest, rfl, hv, hend⟩ := ih { v with log := v.log ++ [.called l v.val val] }
      refine ⟨l :: done, rest, rfl, ?_, hend.imp_right fun h => ⟨h.1, nofun⟩⟩
      rw [hv]
      simp [callsOf]
    · rename_i hthrows
      exact ⟨[l], ls, rfl, rfl, .inr ⟨hthrows, nofun⟩⟩

variable (ends) in
/-- **What `setValue` does**: nothing for an equal value; else it tells the listeners up to one that throws,
or tells all and assigns. -/
theorem setValue_cases [DecidableEq α] (v : Var α) (val : α) :
    (val = v.val ∧ v.setValue ends val = (.returns, v)) ∨
    (val ≠ v.val ∧ ∃ done rest, v.m_callbacks = done ++ rest ∧ done ≠ [] ∧ (v.setValue ends val).1 ≠ .returns ∧
      (v.setValue ends val).2 = { v with log := v.log ++ callsOf done v.val val }) ∨
    (val ≠ v.val ∧ v.setValue ends val =
      (.returns, { v with val, log := v.log ++ callsOf v.m_callbacks v.val val ++ [.assigned val] })) := by
  unfold Var.setValue
  split
  · exact .inl ⟨‹_›, rfl⟩
  · rename_i hne
    obtain ⟨done, rest, hls, hv, hend⟩ := notify_spec ends val v.m_callbacks v
    generalize v.notify ends val v.m_callbacks = r at hv hend ⊢
    obtain ⟨e, v'⟩ := r
    obtain rfl : v' = _ := hv
    rcases hend with ⟨rfl, rfl⟩ | ⟨hthrows, hdone⟩
    · rw [List.append_nil] at hls
      subst hls
      exact .inr (.inr ⟨hne, rfl⟩)
    · refine .inr (.inl ⟨hne, done, rest, hls, hdone, ?_⟩)
      cases e with
      | returns => exact absurd rfl hthrows
      | exception | other => exact ⟨nofun, rfl⟩

/-- What is installed behind two histories. -/
theorem installed_append (a : α) (log log' : List (Event α)) :
    installed a (log ++ log') = installed (installed a log) log' := by
  rw [installed, List.foldl_append]
  rfl

/-- Calls of listeners install nothing. -/
theorem installed_callsOf (a old new : α) (ls : List Nat) : installed a (callsOf ls old new) = a := by
  induction ls with
  | nil => rfl
  | cons l ls ih => exact ih

/-- Every listener is called with the new value. -/
theorem value_of_mem_callsOf {ls : List Nat} {old new : α} {e : Event α} (h : e ∈ callsOf ls old new) :
    e.value = new := by
  obtain ⟨l, -, rfl⟩ := List.mem_map.mp h
  rfl

end Var

section Kept

variable {T} {a val : α} {offers : List α} {v : Var α} {ends : List (Event α) → Nat → Ending}

/-- A new variable. -/
theorem Kept.new (a : α) : Kept T a [] ⟨a, [], []⟩ := ⟨rfl, .made, rfl, nofun⟩

/-- More values are offered. -/
theorem Kept.mono (h : Kept T a offers v) {offers' : List α} (hle : offers ⊆ offers') : Kept T a offers' v :=
  ⟨h.type, h.story, h.holds, fun e he => hle (h.offered e he)⟩

/-- The listeners change. -/
theorem Kept.listeners (h : Kept T a offers v) (ls : List Nat) : Kept T a offers { v with m_callbacks := ls } :=
  ⟨h.type, h.story.listeners ls, h.holds, h.offered⟩

variable (ends) in
/-- **A value that is offered** is told to listeners, and assigned or not. -/
theorem Kept.setValue [DecidableEq α] (h : Kept T a offers v) (ht : T.typeOf val = T.typeOf a) (hval : val ∈ offers) :
    Kept T a offers (v.setValue ends val).2 := by
  rcases setValue_cases ends v val with ⟨-, heq⟩ | ⟨hne, done, rest, hls, hdone, -, heq⟩ | ⟨hne, heq⟩
  · rw [heq]
    exact h
  · rw [heq]
    refine ⟨h.type, ?_, ?_, fun e he => ?_⟩
    · have hstory := h.story
      rw [hls] at hstory
      show Story a v.m_callbacks v.val _
      rw [hls]
      exact hstory.thrown hne hdone
    · show installed a (v.log ++ _) = v.val
      rw [installed_append, installed_callsOf, h.holds]
    · rcases List.mem_append.mp he with he | he
      · exact h.offered e he
      · exact value_of_mem_callsOf he ▸ hval
  · rw [heq]
    refine ⟨ht, h.story.assigned hne, ?_, fun e he => ?_⟩
    · show installed a (_ ++ [_]) = val
      rw [installed_append]
      rfl
    · rcases List.mem_append.mp he with he | he
      · rcases List.mem_append.mp he with he | he
        · exact h.offered e he
        · exact value_of_mem_callsOf he ▸ hval
      · rw [List.mem_singleton.mp he]
        exact hval

/-- A text that is converted offers its value. -/
theorem Kept.fromString [DecidableEq α] (h : Kept T a offers v) {text : Bytes}
    (hval : ∀ val, (T.fromStr (T.typeOf a) text).map Subtype.val = some val → val ∈ offers) :
    Kept T a offers (v.fromString T ends text).2 := by
  rw [Var.fromString, h.type, Var.fromStringAs]
  cases hconv : T.fromStr (T.typeOf a) text with
  | none => exact h
  | some new =>
    have hset := h.setValue ends new.2 (hval new.1 (by rw [hconv]; rfl))
    dsimp only
    split <;> simp_all

/-- Where the listeners of a variable return, it gets the value. -/
theorem setValue_of_returns [DecidableEq α] (hcalm : ∀ log l, ends log l = .returns) (v : Var α) (val : α) :
    (v.setValue ends val).1 = .returns ∧ (v.setValue ends val).2.val = val := by
  have hnotify : ∀ (ls : List Nat) (v : Var α), (v.notify ends val ls).1 = .returns := by
    intro ls
    induction ls with
    | nil => exact fun _ => rfl
    | cons l ls ih =>
      intro v
      rw [Var.notify]
      dsimp only
      rw [hcalm]
      exact ih _
  rcases setValue_cases ends v val with ⟨rfl, heq⟩ | ⟨hne, -, -, -, -, hthrows, -⟩ | ⟨-, heq⟩
  · rw [heq]
    exact ⟨rfl, rfl⟩
  · refine absurd ?_ hthrows
    have hreturns := hnotify v.m_callbacks v
    rw [Var.setValue, if_neg hne]
    generalize v.notify ends val v.m_callbacks = r at hreturns ⊢
    obtain ⟨e, v'⟩ := r
    obtain rfl : e = .returns := hreturns
    rfl
  · rw [heq]
    exact ⟨rfl, rfl⟩

/-- So does one that is made from a text, if the text can be converted. -/
theorem fromString_of_returns [DecidableEq α] (hcalm : ∀ log l, ends log l = .returns) (h : Kept T a offers v)
    (text : Bytes) :
    (v.fromString T ends text).2.val = ((T.fromStr (T.typeOf a) text).map Subtype.val).getD v.val := by
  rw [Var.fromString, h.type, Var.fromStringAs]
  cases T.fromStr (T.typeOf a) text with
  | none => rfl
  | some new =>
    have hval := (setValue_of_returns hcalm v new.1).2
    dsimp only
    split <;> simp_all

/-- Only something that is no `std::exception` leaves `fromString`. -/
theorem fromString_ending [DecidableEq α] (hcalm : ∀ log l, ends log l ≠ .other) (v : Var α) (text : Bytes) :
    (v.fromString T ends text).1 = .returns := by
  have hnotify : ∀ (val : α) (ls : List Nat) (v : Var α), (v.notify ends val ls).1 ≠ .other := by
    intro val ls
    induction ls with
    | nil => exact fun _ => nofun
    | cons l ls ih =>
      intro v
      rw [Var.notify]
      dsimp only
      split
      · exact ih _
      · exact hcalm _ _
  have hset : ∀ val, (v.setValue ends val).1 ≠ .other := by
    intro val
    have hreturns := hnotify val v.m_callbacks v
    unfold Var.setValue
    split
    · exact nofun
    · split
      · exact nofun
      · exact hreturns
  rw [Var.fromString, Var.fromStringAs]
  cases T.fromStr (T.typeOf v.val) text with
  | none => rfl
  | some new =>
    dsimp only
    split
    · rename_i heq
      exact absurd (congrArg Prod.fst heq) (hset new.1)
    · rfl

end Kept

/-! ### The variable of a name -/

section Steps

variable {T} {listener} {name : Bytes} {a val : α} {offers : List α} {v : Var α} {c : ConfigVarMap α}

/-- What a name finds behind one more variable. -/
theorem lookupBase_set (name n : Bytes) (v : Var α) (c : ConfigVarMap α) :
    lookupBase name (OrdMap.set bytesLess n v c) = if name = n then some v else lookupBase name c := by
  split
  · rename_i h
    exact OrdMap.find_set_self bytesLess_keyed h v c
  · rename_i h
    exact OrdMap.find_set_of_ne bytesLess_keyed h v c

/-- `lookup` makes a variable when there is none with a valid name. -/
theorem lookupBase_lookup [DecidableEq τ] (name n : Bytes) (default_val : α) (c : ConfigVarMap α) :
    lookupBase name (lookup T n default_val c).2 =
      if name = n ∧ validName n = true then (lookupBase name c).or (some ⟨default_val, [], []⟩)
      else lookupBase name c := by
  unfold lookup
  by_cases hname : name = n
  · subst hname
    cases hfind : lookupBase name c with
    | some v => simp [hfind]
    | none => by_cases hvalid : validName name = true <;> simp [hfind, hvalid, lookupBase_set]
  · cases lookupBase n c with
    | some v => simp [hname]
    | none => by_cases hvalid : validName n = true <;> simp [hname, hvalid, lookupBase_set]

/-- A call of a variable changes that one. -/
theorem lookupBase_callVar (name n : Bytes) (f : Var α → Ending × Var α) (c : ConfigVarMap α) :
    lookupBase name (callVar n f c).2 =
      if name = n then (lookupBase name c).map fun v => (f v).2 else lookupBase name c := by
  unfold callVar
  by_cases hname : name = n
  · subst hname
    cases hfind : lookupBase name c with
    | none => simp [hfind]
    | some v => simp [lookupBase_set]
  · cases lookupBase n c with
    | none => simp [hname]
    | some v => simp [lookupBase_set, hname]

variable (T listener) in
/-- The map has under the name a variable of which that is known, with a value where no listener throws. -/
def Holds (name : Bytes) (a : α) (offers : List α) (val : α) (c : ConfigVarMap α) : Prop :=
  ∃ v, lookupBase name c = some v ∧ Kept T a offers v ∧ (Calm listener name → v.val = val)

/-- A turn of the loop gives the variable what the node has for it. -/
theorem Holds.loadNode [DecidableEq α] (h : Holds T listener name a offers val c) {i : Bytes × Node}
    (hi : validName i.1 = true) (hgiven : ∀ val, given T emit name (T.typeOf a) i = some val → val ∈ offers) :
    Holds T listener name a offers ((given T emit name (T.typeOf a) i).getD val) (loadNode T emit listener i c).2 ∧
      (Calm listener name → (loadNode T emit listener i c).1 = .returns) := by
  obtain ⟨v, hv, hkept, hval⟩ := h
  rw [Config.loadNode]
  rw [given] at hgiven ⊢
  by_cases hkey : i.1 = []
  · rw [if_pos hkey, if_neg fun hname => hname.2 (hname.1.symm.trans hkey)]
    exact ⟨⟨v, hv, hkept, hval⟩, fun _ => rfl⟩
  rw [if_neg hkey, map_tolower_of_validName hi]
  constructor
  · by_cases hname : name = i.1
    · subst hname
      rw [if_pos ⟨rfl, hkey⟩] at hgiven ⊢
      refine ⟨(v.fromString T (listener i.1) (i.2.text emit)).2, ?_, hkept.fromString hgiven, fun hcalm => ?_⟩
      · rw [lookupBase_callVar, if_pos rfl, hv]
        rfl
      · rw [fromString_of_returns hcalm.1 hkept, hval hcalm]
    · rw [if_neg fun h => hname h.1.symm]
      exact ⟨v, by rw [lookupBase_callVar, if_neg hname, hv], hkept, hval⟩
  · intro hcalm
    unfold callVar
    cases lookupBase i.1 c with
    | none => rfl
    | some v => exact fromString_ending (hcalm.2 i.1) v _

/-- The loop offers the variable what the nodes have for it. -/
theorem Holds.loadNodes [DecidableEq α] (h : Holds T listener name a offers val c) {nodes : List (Bytes × Node)}
    (hnodes : ∀ i ∈ nodes, validName i.1 = true)
    (hgiven : nodes.filterMap (given T emit name (T.typeOf a)) ⊆ offers) :
    Holds T listener name a offers ((nodes.filterMap (given T emit name (T.typeOf a))).getLastD val)
      (loadNodes T emit listener nodes c) := by
  induction nodes generalizing c val with
  | nil => exact h
  | cons i nodes ih =>
    obtain ⟨hi, hnodes⟩ := List.forall_mem_cons.mp hnodes
    have hone : ∀ val, given T emit name (T.typeOf a) i = some val → val ∈ offers := fun val hval =>
      hgiven (List.mem_filterMap.mpr ⟨i, List.mem_cons_self, hval⟩)
    have hrest : nodes.filterMap (given T emit name (T.typeOf a)) ⊆ offers := fun val hval => by
      obtain ⟨j, hj, hgiv⟩ := List.mem_filterMap.mp hval
      exact hgiven (List.mem_filterMap.mpr ⟨j, List.mem_cons_of_mem i hj, hgiv⟩)
    obtain ⟨hstep, hreturns⟩ := h.loadNode emit hi hone
    have hlast : ((i :: nodes).filterMap (given T emit name (T.typeOf a))).getLastD val =
        (nodes.filterMap (given T emit name (T.typeOf a))).getLastD ((given T emit name (T.typeOf a) i).getD val) := by
      rw [List.filterMap_cons]
      cases given T emit name (T.typeOf a) i with
      | none => rfl
      | some new => exact List.getLastD_cons ..
    rw [hlast, Config.loadNodes]
    split
    · rename_i c' heq
      rw [heq] at hstep
      exact ih hstep hnodes hrest
    · -- an exception leaves the loop, and then the variable has what it has
      rename_i e c' hthrows heq
      rw [heq] at hstep hreturns
      obtain ⟨v, hv, hkept, -⟩ := hstep
      exact ⟨v, hv, hkept, fun hcalm => absurd (hreturns hcalm) hthrows⟩

/-- The names of the members of a document are valid. -/
theorem validName_of_mem {root : Node} {i : Bytes × Node} (h : i ∈ listAllMember [] root) : validName i.1 = true :=
  (mem_listAllMember_iff.mp h).1

/-- **A call keeps a variable**, and offers it what it offers. -/
theorem Holds.after [DecidableEq τ] [DecidableEq α] (h : Holds T listener name a offers val c) {call : Call α}
    (hoffered : offered T emit name (T.typeOf a) call ⊆ offers) :
    Holds T listener name a offers ((offered T emit name (T.typeOf a) call).getLastD val)
      (after T emit listener c call) := by
  have hlisteners : ∀ (n : Bytes) (f : Var α → Var α), (∀ v, ∃ ls, f v = { v with m_callbacks := ls }) →
      Holds T listener name a offers val (withVar n f c) := by
    intro n f hf
    obtain ⟨v, hv, hkept, hval⟩ := h
    rw [Holds, withVar, lookupBase_callVar, hv]
    by_cases hname : name = n
    · obtain ⟨ls, hls⟩ := hf v
      rw [if_pos hname, Option.map_some, hls]
      exact ⟨_, rfl, hkept.listeners ls, hval⟩
    · rw [if_neg hname]
      exact ⟨v, rfl, hkept, hval⟩
  cases call with
  | lookup n default_val =>
    obtain ⟨v, hv, hkept, hval⟩ := h
    refine ⟨v, ?_, hkept, hval⟩
    rw [Config.after, lookupBase_lookup, hv, Option.some_or, ite_self]
  | setValue n val' =>
    obtain ⟨v, hv, hkept, hval⟩ := h
    rw [Holds, Config.after, offered, lookupBase_callVar, hv]
    rw [offered] at hoffered
    by_cases hname : name = n
    · subst hname
      rw [if_pos rfl, Option.map_some, hkept.type]
      by_cases ht : T.typeOf val' = T.typeOf a
      · have hboth : name = name ∧ T.typeOf val' = T.typeOf a := ⟨rfl, ht⟩
        rw [if_pos hboth] at hoffered
        rw [if_pos hboth, if_pos ht]
        refine ⟨_, rfl, hkept.setValue _ ht (hoffered List.mem_cons_self), fun hcalm => ?_⟩
        exact (setValue_of_returns hcalm.1 v val').2
      · rw [if_neg ht, if_neg fun hc => ht hc.2]
        exact ⟨v, rfl, hkept, hval⟩
    · rw [if_neg hname, if_neg fun hc => hname hc.1.symm]
      exact ⟨v, rfl, hkept, hval⟩
  | addListener n key => exact hlisteners n _ fun v => ⟨_, rfl⟩
  | delListener n key => exact hlisteners n _ fun v => ⟨_, rfl⟩
  | clearListener n => exact hlisteners n _ fun v => ⟨_, rfl⟩
  | loadFromYaml root => exact h.loadNodes emit (fun _ hi => validName_of_mem hi) hoffered

/-- No document makes a variable. -/
theorem lookupBase_loadNodes [DecidableEq α] (hv : lookupBase name c = none) (nodes : List (Bytes × Node)) :
    lookupBase name (loadNodes T emit listener nodes c) = none := by
  have hnode : ∀ (i : Bytes × Node) (c : ConfigVarMap α), lookupBase name c = none →
      lookupBase name (loadNode T emit listener i c).2 = none := by
    intro i c hv
    rw [Config.loadNode]
    split
    · exact hv
    · rw [lookupBase_callVar, hv, Option.map_none, ite_self]
  induction nodes generalizing c with
  | nil => exact hv
  | cons i nodes ih =>
    have hstep := hnode i c hv
    rw [loadNodes]
    split
    · rename_i c' heq
      rw [heq] at hstep
      exact ih hstep
    · rename_i heq
      rw [heq] at hstep
      exact hstep

end Steps

/-! ### Some calls -/

section Calls

variable {T} {listener} [DecidableEq τ] [DecidableEq α] {name : Bytes} {a val : α} {offers : List α}
  {c : ConfigVarMap α}

/-- A variable that was made, with the calls since then. -/
theorem Holds.foldl_after (h : Holds T listener name a offers val c) {calls : List (Call α)}
    (hoffered : calls.flatMap (offered T emit name (T.typeOf a)) ⊆ offers) :
    Holds T listener name a offers ((calls.flatMap (offered T emit name (T.typeOf a))).getLastD val)
      (calls.foldl (Config.after T emit listener) c) := by
  induction calls generalizing c val with
  | nil => exact h
  | cons call calls ih =>
    rw [List.flatMap_cons, List.append_subset] at hoffered
    have hlast : ((call :: calls).flatMap (offered T emit name (T.typeOf a))).getLastD val =
        (calls.flatMap (offered T emit name (T.typeOf a))).getLastD
          ((offered T emit name (T.typeOf a) call).getLastD val) := by
      rw [List.flatMap_cons, List.getLastD_eq_getLast?, List.getLast?_append, Option.getD_or, List.getLastD_eq_getLast?,
        List.getLastD_eq_getLast?]
    rw [hlast, List.foldl_cons]
    exact ih (h.after emit hoffered.1) hoffered.2

variable (T listener) in
/-- A variable that is not there is made by a `lookup` of its name, if by anything. -/
theorem lookupBase_after_of_none (hv : lookupBase name c = none) (call : Call α) :
    lookupBase name (Config.after T emit listener c call) =
      (makes name call).map fun default_val => ⟨default_val, [], []⟩ := by
  cases call with
  | lookup n default_val =>
    rw [Config.after, lookupBase_lookup, hv, Option.none_or, makes]
    by_cases hname : name = n
    · subst hname
      split <;> simp_all
    · rw [if_neg fun h => hname h.1, if_neg fun h => hname h.1.symm]
      rfl
  | setValue n val =>
    rw [Config.after, lookupBase_callVar, hv, Option.map_none, ite_self]
    rfl
  | addListener | delListener | clearListener =>
    rw [Config.after, withVar, lookupBase_callVar, hv, Option.map_none, ite_self]
    rfl
  | loadFromYaml root => exact lookupBase_loadNodes emit hv _

variable (T listener) in
/-- The variable of a name after any calls. -/
theorem lookupBase_afterAll (name : Bytes) (calls : List (Call α)) :
    match created name calls with
    | none => lookupBase name (afterAll T emit listener calls) = none
    | some (a, since) => Holds T listener name a (since.flatMap (offered T emit name (T.typeOf a)))
        ((since.flatMap (offered T emit name (T.typeOf a))).getLastD a) (afterAll T emit listener calls) := by
  suffices hfrom : ∀ c : ConfigVarMap α, lookupBase name c = none →
      match created name calls with
      | none => lookupBase name (calls.foldl (Config.after T emit listener) c) = none
      | some (a, since) => Holds T listener name a (since.flatMap (offered T emit name (T.typeOf a)))
          ((since.flatMap (offered T emit name (T.typeOf a))).getLastD a)
          (calls.foldl (Config.after T emit listener) c) from hfrom [] rfl
  intro c hc
  induction calls generalizing c with
  | nil => exact hc
  | cons call calls ih =>
    have hstep := lookupBase_after_of_none T emit listener hc call
    rw [created]
    cases hmakes : makes name call with
    | none =>
      rw [hmakes] at hstep
      exact ih _ hstep
    | some a =>
      rw [hmakes] at hstep
      have hnew : Holds T listener name a (calls.flatMap (offered T emit name (T.typeOf a))) a
          (Config.after T emit listener c call) :=
        ⟨_, hstep, (Kept.new a).mono (List.nil_subset _), fun _ => rfl⟩
      exact hnew.foldl_after emit (List.Subset.refl _)

end Calls

/-! ### The steps of a thread -/

section Thread

/-- A thread is at a place, and no other one is in a call. -/
structure Only (s : ConfigVar α) (thread : Nat) (place : Place α) : Prop where
  here : s.threads[thread]? = some place
  others : ∀ i p, s.threads[i]? = some p → i ≠ thread → p = .idle

variable {s : ConfigVar α} {thread : Nat} {place : Place α}

/-- A thread that is alone stays so. -/
theorem Only.go (h : Only s thread place) (place' : Place α) : Only (s.go thread place') thread place' :=
  ⟨go_self h.here, others_go h.others⟩

/-- With that thread idle no call is on its way. -/
theorem Only.quiet (h : Only s thread .idle) : s.Quiet := by
  intro p hp
  obtain ⟨i, hi⟩ := List.mem_iff_getElem?.mp hp
  by_cases heq : i = thread
  · subst heq
    exact (Option.some.inj (h.here.symm.trans hi)).symm
  · exact h.others i p hi heq

/-- With no thread under the read lock the write lock is free. -/
theorem Only.free (h : Only s thread place) (hplace : place.reads = false) : s.threads.any Place.reads = false := by
  refine List.any_eq_false.mpr fun p hp => ?_
  obtain ⟨i, hi⟩ := List.mem_iff_getElem?.mp hp
  by_cases heq : i = thread
  · subst heq
    rw [← Option.some.inj (h.here.symm.trans hi), hplace]
    exact Bool.false_ne_true
  · rw [h.others i p hi heq]
    exact Bool.false_ne_true

variable [DecidableEq α] {fromStr : String → Option α} {ends : List (Event α) → Nat → Ending} {val dflt : α}
  {callbacks ls : List Nat} {n : Nat}

variable (fromStr ends n dflt callbacks) in
/-- **The loop over the listeners**, one by one: after an exception the thread is idle again, else it is to give up its
lock. -/
theorem notify_run (h : Only s thread (.notifying val ls)) (v : Var α) (hval : v.val = s.val) (hlog : v.log = s.log) :
    ∃ moves t, (system fromStr callbacks n dflt).exec (fun _ _ => true) s moves = some t ∧ t.val = s.val ∧
      t.log = (v.notify ends val ls).2.log ∧
      Only t thread (if (v.notify ends val ls).1 = .returns then .notifying val [] else .idle) := by
  induction ls generalizing s v with
  | nil => exact ⟨[], s, rfl, rfl, hlog.symm, h⟩
  | cons l ls ih =>
    have hstep : ∀ throws, (system fromStr callbacks n dflt).next s (.notify thread throws) =
        some { s.go thread (if throws then .idle else .notifying val ls) with
          log := s.log ++ [.called l s.val val] } := by
      intro throws
      show s.next fromStr callbacks (.notify thread throws) = _
      rw [ConfigVar.next, h.here]
    rw [Var.notify]
    dsimp only
    rw [hval, hlog]
    cases ends (s.log ++ [.called l s.val val]) l with
    | returns =>
      have hgo := h.go (.notifying val ls)
      obtain ⟨moves, t, hmoves, htval, htlog, honly⟩ :=
        ih (s := { s.go thread (.notifying val ls) with log := s.log ++ [.called l s.val val] }) ⟨hgo.here, hgo.others⟩
          { v with val := s.val, log := s.log ++ [.called l s.val val] } rfl rfl
      exact ⟨_, t, (System.exec_cons rfl (hstep false)).trans hmoves, htval, htlog, honly⟩
    | exception | other =>
      have hgo := h.go .idle
      exact ⟨[.notify thread true], _, System.exec_cons rfl (hstep true), rfl, rfl, hgo.here, hgo.others⟩

/-- **A thread that goes through `setValue` alone** does what `setValue` does here in one step: from a state in which no
thread is in a call, its steps lead to one in which none is, with the value and the log of the call. -/
theorem setValue_run (v : Var α) (hval : v.val = s.val) (hlog : v.log = s.log) (hquiet : s.Quiet)
    (hthread : thread < s.threads.length) : ∃ moves t,
    (system fromStr v.m_callbacks n dflt).exec (fun _ _ => true) s moves = some t ∧ t.Quiet ∧
      t.val = (v.setValue ends val).2.val ∧ t.log = (v.setValue ends val).2.log := by
  have honly : Only s thread .idle := by
    refine ⟨?_, fun i p hp _ => hquiet p (List.mem_of_getElem? hp)⟩
    rw [List.getElem?_eq_getElem hthread, hquiet _ (List.getElem_mem hthread)]
  have hbegin : (system fromStr v.m_callbacks n dflt).next s (.setValue thread val) =
      some (s.compare v.m_callbacks thread val) := if_pos honly.here
  by_cases heq : val = s.val
  · rw [ConfigVar.compare, if_pos heq] at hbegin
    rw [Var.setValue, if_pos (heq.trans hval.symm)]
    exact ⟨[.setValue thread val], s, System.exec_cons rfl hbegin, hquiet, hval.symm, hlog.symm⟩
  rw [ConfigVar.compare, if_neg heq] at hbegin
  rw [Var.setValue, if_neg fun h => heq (h.trans hval)]
  obtain ⟨moves, t, hmoves, htval, htlog, honly'⟩ := notify_run fromStr ends dflt v.m_callbacks n
    (honly.go (.notifying val v.m_callbacks)) v hval hlog
  have hall := (System.exec_cons (g := fun _ _ => true) rfl hbegin).trans hmoves
  obtain ⟨done, rest, -, hv, -⟩ := notify_spec ends val v.m_callbacks v
  have hkept : (v.notify ends val v.m_callbacks).2.val = s.val := by rw [hv]; exact hval
  generalize v.notify ends val v.m_callbacks = r at htlog honly' hkept ⊢
  obtain ⟨e, v'⟩ := r
  cases e with
  | exception | other => exact ⟨_, t, hall, honly'.quiet, htval.trans hkept.symm, htlog⟩
  | returns =>
    -- the thread gives up the read lock, takes the write lock and assigns
    have hhere : t.threads[thread]? = some (.notifying val []) := honly'.here
    have hunlock : (system fromStr v.m_callbacks n dflt).next t (.unlock thread) =
        some (t.go thread (.assigning val)) := by
      show t.next fromStr v.m_callbacks (.unlock thread) = _
      rw [ConfigVar.next, hhere]
    have hassigning := honly'.go (.assigning val)
    have hidle := hassigning.go .idle
    have hassign : (system fromStr v.m_callbacks n dflt).next (t.go thread (.assigning val)) (.assign thread) =
        some { (t.go thread (.assigning val)).go thread .idle with val, log := t.log ++ [.assigned val] } := by
      show (t.go thread (.assigning val)).next fromStr v.m_callbacks (.assign thread) = _
      rw [ConfigVar.next, hassigning.here]
      dsimp only
      rw [hassigning.free rfl, if_neg Bool.false_ne_true]
      rfl
    have hend : (system fromStr v.m_callbacks n dflt).exec (fun _ _ => true) t [.unlock thread, .assign thread] =
        some { (t.go thread (.assigning val)).go thread .idle with val, log := t.log ++ [.assigned val] } := by
      rw [System.exec_cons rfl hunlock, System.exec_cons rfl hassign]
      rfl
    refine ⟨_, _, System.exec_append hall hend, ?_, rfl, ?_⟩
    · exact (show Only _ thread .idle from ⟨hidle.here, hidle.others⟩).quiet
    · show t.log ++ _ = _
      rw [htlog]

end Thread

end Config
end Wuchat
