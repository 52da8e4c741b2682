/-
# The configuration files of a directory

`config.cpp`: `LoadFromConfDir` lists the files of a directory that end in ".yml", and loads those that have
changed: it keeps for each file the time of its modification at the last visit, and passes over a file whose
time is the same, unless it is forced.  The time is noted before the file is loaded, and an exception of the
loading is dropped.

So whether a file is loaded depends on its last visit alone (`Visit.Due`): a file that could not be loaded is
not tried again before it changes, and neither is one whose time is 0, the one noted for a file never seen.  What
becomes of the variables is what the loaded documents make of them, one after the other, among the other
calls (`configured_eq`).

What `lstat` and `YAML::LoadFile` answer is part of the call; a file that is gone has the time 0.
-/

import Wuchat.Config.Registry
import Wuchat.Util.Files

namespace Wuchat
namespace Config

open Foundation
open FSUtil (Entry listAllFile)

/-- A file at its visit: its time, and its document if it can be loaded. -/
structure Visit where
  force : Bool
  file : Bytes
  st_mtime : UInt64
  root : Option Node

/-- `Env::getAbsolutePath(path)`. -/
def getAbsolutePath (m_cwd path : Bytes) : Bytes :=
  if path = [] then str "/" else if str "/" <+: path then path else m_cwd ++ path

/-- A call of `LoadFromConfDir`: the path, what is there, and what `lstat` and `YAML::LoadFile` answer. -/
structure ConfDir where
  m_cwd : Bytes
  path : Bytes
  found : Entry
  lstat : Bytes → UInt64
  loadFile : Bytes → Option Node
  force : Bool

/-- The visits of a call. -/
def ConfDir.visits (d : ConfDir) : List Visit :=
  (listAllFile (str ".yml") (getAbsolutePath d.m_cwd d.path) d.found).map fun i => ⟨d.force, i, d.lstat i, d.loadFile i⟩

/-- `s_file2modifyTime` and the variables. -/
structure Configured (α : Type) where
  s_file2modifyTime : OrdMap Bytes UInt64
  vars : ConfigVarMap α

section

variable {τ α : Type} [DecidableEq α] (T : Types τ α) (emit : Node → Bytes)
  (listener : Listeners α)

/-- `m[k]` for a key that may be new, which is then there with the value 0. -/
def touch (i : Bytes) (m : OrdMap Bytes UInt64) : OrdMap Bytes UInt64 := OrdMap.insert bytesLess i 0 m

/-- One turn of the loop of `LoadFromConfDir`. -/
def visit (s : Configured α) (v : Visit) : Configured α :=
  if v.force = false ∧ (OrdMap.find bytesLess v.file (touch v.file s.s_file2modifyTime)).getD 0 = v.st_mtime then
    { s with s_file2modifyTime := touch v.file s.s_file2modifyTime }
  else
    { s_file2modifyTime := OrdMap.set bytesLess v.file v.st_mtime s.s_file2modifyTime
      vars := match v.root with
        | some root => loadFromYaml T emit listener root s.vars
        | none => s.vars }

/-! ### Which files are loaded -/

/-- The time of a file at a visit. -/
def timeOf (file : Bytes) (v : Visit) : Option UInt64 := if v.file = file then some v.st_mtime else none

/-- **A file is loaded** at a visit when it is forced, or when its time is not the one of its last visit. -/
def Visit.Due (before : List Visit) (v : Visit) : Prop :=
  v.force = true ∨ v.st_mtime ≠ (latest (timeOf v.file) before).getD 0

/-- Whether a file is due can be computed. -/
instance (before : List Visit) (v : Visit) : Decidable (v.Due before) := inferInstanceAs (Decidable (_ ∨ _))

/-- The documents that are loaded by some visits, after others. -/
def loaded (before : List Visit) : List Visit → List Node
  | [] => []
  | v :: visits => (if v.Due before then v.root.toList else []) ++ loaded (before ++ [v]) visits

/-- The times that are noted are those of the last visits. -/
def Noted (before : List Visit) (times : OrdMap Bytes UInt64) : Prop :=
  ∀ file, (OrdMap.find bytesLess file times).getD 0 = (latest (timeOf file) before).getD 0

variable {T} {before : List Visit} {s : Configured α}

/-- A new entry with 0 says what none says. -/
theorem find_touch (i file : Bytes) (m : OrdMap Bytes UInt64) :
    (OrdMap.find bytesLess file (touch i m)).getD 0 = (OrdMap.find bytesLess file m).getD 0 := by
  rw [touch, OrdMap.find_insert bytesLess_keyed]
  cases OrdMap.find bytesLess file m with
  | some t => rfl
  | none =>
    rw [Option.none_or]
    split <;> rfl

/-- **A visit** notes the time of its file, and loads it when it is due. -/
theorem visit_spec (h : Noted before s.s_file2modifyTime) (v : Visit) :
    Noted (before ++ [v]) (visit T emit listener s v).s_file2modifyTime ∧
      (visit T emit listener s v).vars =
        (if v.Due before then v.root.toList else []).foldl (fun c root =>
          loadFromYaml T emit listener root c) s.vars := by
  have hfile : ∀ file, (latest (timeOf file) (before ++ [v])).getD 0 =
      if v.file = file then v.st_mtime else (latest (timeOf file) before).getD 0 := by
    intro file
    rw [latest_snoc, timeOf]
    split <;> rfl
  unfold visit
  split
  · rename_i hsame
    rw [find_touch, h] at hsame
    refine ⟨fun file => ?_, ?_⟩
    · rw [find_touch, h, hfile]
      split
      · rename_i heq
        rw [← heq, hsame.2]
      · rfl
    · rw [if_neg]
      · rfl
      · rintro (hforce | hne)
        · exact absurd (hforce.symm.trans hsame.1) nofun
        · exact hne hsame.2.symm
  · rename_i hdue
    rw [find_touch, h] at hdue
    refine ⟨fun file => ?_, ?_⟩
    · rw [hfile]
      by_cases heq : v.file = file
      · rw [if_pos heq, OrdMap.find_set_self bytesLess_keyed (congrArg id heq).symm]
        rfl
      · rw [if_neg heq, OrdMap.find_set_of_ne bytesLess_keyed (fun hkey : id file = id v.file => heq hkey.symm), h]
    · have : v.Due before := by
        by_contra hnot
        simp only [Visit.Due, not_or, not_not, Bool.not_eq_true] at hnot
        exact hdue ⟨hnot.1, hnot.2.symm⟩
      rw [if_pos this]
      cases v.root <;> rfl

/-- **The visits of a call.** -/
theorem visits_spec (h : Noted before s.s_file2modifyTime) (visits : List Visit) :
    Noted (before ++ visits) (visits.foldl (visit T emit listener) s).s_file2modifyTime ∧
      (visits.foldl (visit T emit listener) s).vars =
        (loaded before visits).foldl (fun c root => loadFromYaml T emit listener root c) s.vars := by
  induction visits generalizing before s with
  | nil => exact ⟨by simpa using h, rfl⟩
  | cons v visits ih =>
    obtain ⟨hnoted, hvars⟩ := visit_spec (T := T) emit listener h v
    obtain ⟨hnoted', hvars'⟩ := ih hnoted
    rw [List.append_assoc] at hnoted'
    refine ⟨hnoted', ?_⟩
    rw [List.foldl_cons, hvars', hvars, loaded, List.foldl_append]

/-! ### Among the other calls -/

variable [DecidableEq τ]

/-- What changes the variables: a call, or the loading of a directory. -/
inductive Change (α : Type)
  | call (c : Call α)
  | confDir (d : ConfDir)

variable (T) in
/-- The state after a change. -/
def change (s : Configured α) : Change α → Configured α
  | .call c => { s with vars := after T emit listener s.vars c }
  | .confDir d => d.visits.foldl (visit T emit listener) s

/-- The calls that some changes come to, after some visits. -/
def calls (before : List Visit) : List (Change α) → List (Call α)
  | [] => []
  | .call c :: changes => c :: calls before changes
  | .confDir d :: changes => (loaded before d.visits).map .loadFromYaml ++ calls (before ++ d.visits) changes

/-- What the changes since some visits make of the variables. -/
theorem changes_spec (h : Noted before s.s_file2modifyTime) (changes : List (Change α)) :
    (changes.foldl (change T emit listener) s).vars = (calls before changes).foldl (after T emit listener) s.vars := by
  induction changes generalizing before s with
  | nil => rfl
  | cons e changes ih =>
    cases e with
    | call c =>
      rw [List.foldl_cons, calls, List.foldl_cons]
      exact ih (s := { s with vars := after T emit listener s.vars c }) h
    | confDir d =>
      obtain ⟨hnoted, hvars⟩ := visits_spec (T := T) emit listener h d.visits
      have hloads : ∀ (roots : List Node) (c : ConfigVarMap α),
          (roots.map Call.loadFromYaml).foldl (after T emit listener) c =
          roots.foldl (fun c root => loadFromYaml T emit listener root c) c := by
        intro roots c
        rw [List.foldl_map]
        rfl
      rw [List.foldl_cons, calls, List.foldl_append, hloads, ← hvars]
      exact ih hnoted

variable (T) in
/-- **What the configuration files make of the variables**: after any calls and loadings of directories the
variables are what the calls make of them with, for each loading, the documents of the files that are due, in
the order they are visited; a file is due when its time is not the one of its last visit, or by force. -/
theorem configured_eq (changes : List (Change α)) :
    (changes.foldl (change T emit listener) ⟨[], []⟩).vars = afterAll T emit listener (calls [] changes) :=
  changes_spec emit listener (fun _ => rfl) changes

end

end Config
end Wuchat
