/-
# The modules that are loaded

`module.cpp`: `ModuleManager` keeps the loaded modules by their ids.  `del` takes a module out of the map under
the lock and calls its `onUnload` without it.  `add` deletes what has the id of the new module and then
puts the new one in, under the lock again, so that other threads come in between.  `delAll` copies the map under the
lock and deletes one id of the copy after another.

Any number of threads make any calls.  A step is one critical section, or the call of `onUnload`; a thread is
the list of the steps it has still to make.  Every module that was added is, for each time, in the map, on its way to
`onUnload`, unloaded, or replaced by another one without being unloaded (`added_eq`).  Nothing is
replaced in the runs in which no two `add` calls of one id overlap (`added_once`).

`init` calls `add` for the modules of a directory, and the other calls only read the map.  What a module does
in `onUnload` is left out. -/

import Wuchat.Foundation.CString
import Wuchat.Foundation.Places
import Wuchat.Foundation.System

namespace Wuchat
namespace Modules

open Foundation

/-- `Module`: the object with its name and its version. -/
structure Module where
  object : Nat
  m_name : Bytes
  m_version : Bytes
  deriving DecidableEq, Repr

/-- `getId()`, which the constructor makes. -/
def Module.getId (m : Module) : Bytes := m.m_name ++ str "/" ++ m.m_version

/-- The calls of a user. -/
inductive Call
  | add (m : Module)
  | del (name : Bytes)
  | delAll
  deriving DecidableEq, Repr

/-- The steps of a thread: `del` looks the module up and erases it, and calls `onUnload`; `add` puts a module in;
`delAll` copies the map. -/
inductive Act
  | take (name : Bytes)
  | unload (m : Module)
  | put (m : Module)
  | copy
  deriving DecidableEq, Repr

/-- The steps of a call. -/
def Call.acts : Call → List Act
  | .add m => [.take m.getId, .put m]
  | .del name => [.take name]
  | .delAll => [.copy]

/-- What has happened to a module. -/
inductive Event
  | added (m : Module)
  | unloaded (m : Module)
  | replaced (m : Module)
  deriving DecidableEq, Repr

/-- `m_modules`, the threads, and what has happened. -/
structure ModuleManager where
  m_modules : OrdMap Bytes Module
  threads : List (List Act)
  log : List Event
  deriving DecidableEq, Repr

namespace ModuleManager

/-- Threads with the calls they make. -/
def new (calls : List (List Call)) : ModuleManager := ⟨[], calls.map fun c => c.flatMap Call.acts, []⟩

/-- `m_modules.find(name)`. -/
def find (name : Bytes) (s : ModuleManager) : Option Module := OrdMap.find bytesLess name s.m_modules

/-- A thread makes its next step; the others are as they were. -/
def act (s : ModuleManager) (i : Nat) (rest : List Act) : Act → ModuleManager
  | .take name =>
    match s.find name with
    | none => { s with threads := s.threads.set i rest }
    | some m =>
      { s with
        m_modules := OrdMap.erase bytesLess name s.m_modules
        threads := s.threads.set i (.unload m :: rest) }
  | .unload m => { s with threads := s.threads.set i rest, log := s.log ++ [.unloaded m] }
  | .put m =>
    { s with
      m_modules := OrdMap.set bytesLess m.getId m s.m_modules
      threads := s.threads.set i rest
      log := s.log ++ ((s.find m.getId).map Event.replaced).toList ++ [.added m] }
  | .copy => { s with threads := s.threads.set i (s.m_modules.map (fun e => .take e.1) ++ rest) }

/-- The thread with a number makes a step, if it has one left. -/
def next (s : ModuleManager) (i : Nat) : Option ModuleManager :=
  match s.threads[i]? with
  | some (a :: rest) => some (s.act i rest a)
  | _ => none

end ModuleManager

/-- The threads as a system; the label of a step is the number of its thread. -/
def system (calls : List (List Call)) : System ModuleManager Nat := ⟨.new calls, ModuleManager.next⟩

namespace ModuleManager

/-- Every step is the first one that some thread has left. -/
theorem act_of_next {s t : ModuleManager} {i : Nat} (h : s.next i = some t) :
    ∃ a rest, s.threads[i]? = some (a :: rest) ∧ t = s.act i rest a := by
  unfold next at h
  split at h
  · rename_i a rest hi
    exact ⟨a, rest, hi, (Option.some.inj h).symm⟩
  · cases h

/-! ### Where a module is -/

/-- How often a module is in the map. -/
def held (s : ModuleManager) (m : Module) : Nat := (s.m_modules.map Prod.snd).count m

/-- How often a module has left the map for its `onUnload`, which has not been called yet. -/
def leaving (s : ModuleManager) (m : Module) : Nat := (s.threads.map fun acts => acts.count (.unload m)).sum

/-- **A module that was added** is in the map, leaving, unloaded or replaced; and the map is in order. -/
structure Accounted (s : ModuleManager) : Prop where
  sorted : s.m_modules.Pairwise fun a b => bytesLess a.1 b.1 = true
  added : ∀ m, s.log.count (.added m) =
    s.held m + s.leaving m + s.log.count (.unloaded m) + s.log.count (.replaced m)

section Accounts

variable {s t : ModuleManager} {i : Nat}

/-- What a thread does changes its own share of the modules that are leaving. -/
theorem leaving_set {acts : List Act} (hi : s.threads[i]? = some acts) (acts' : List Act) (m : Module)
    (modules : OrdMap Bytes Module) (log : List Event) :
    leaving ⟨modules, s.threads.set i acts', log⟩ m + acts.count (.unload m) =
      s.leaving m + acts'.count (.unload m) :=
  sum_map_set (fun acts => acts.count (.unload m)) hi acts'

/-- A step that balances: what it adds and what was there before is there after it, or has gone the ways there are. -/
theorem Accounted.balance {acts : List Act} {modules : OrdMap Bytes Module} (h : s.Accounted) (acts' : List Act)
    (es : List Event) (hi : s.threads[i]? = some acts) (hsorted : modules.Pairwise fun a b => bytesLess a.1 b.1 = true)
    (hbalance : ∀ m, es.count (.added m) + (s.m_modules.map Prod.snd).count m + acts.count (.unload m) =
      (modules.map Prod.snd).count m + acts'.count (.unload m) + es.count (.unloaded m) + es.count (.replaced m)) :
    Accounted ⟨modules, s.threads.set i acts', s.log ++ es⟩ := by
  refine ⟨hsorted, fun m => ?_⟩
  have hold := h.added m
  have hleave := leaving_set hi acts' m modules (s.log ++ es)
  have hnew := hbalance m
  simp only [held, List.count_append] at hold ⊢
  omega

/-- **Every step accounts for every module.** -/
theorem Accounted.act {a : Act} {rest : List Act} (h : s.Accounted) (hi : s.threads[i]? = some (a :: rest)) :
    (s.act i rest a).Accounted := by
  cases a with
  | take name =>
    cases hfind : s.find name with
    | none =>
      have hstep := h.balance rest [] hi h.sorted fun m => by simp
      simpa [ModuleManager.act, hfind] using hstep
    | some old =>
      have hsorted : (OrdMap.erase bytesLess name s.m_modules).Pairwise fun a b => bytesLess a.1 b.1 = true :=
        h.sorted.filter _
      have hstep := h.balance (.unload old :: rest) [] hi hsorted fun m => by
        have hcount := OrdMap.count_values_erase (k := name) bytesLess_keyed h.sorted m
        rw [show OrdMap.find bytesLess name s.m_modules = some old from hfind] at hcount
        simp only [Option.some.injEq] at hcount
        simp only [List.count_cons, List.count_nil, beq_iff_eq, Act.unload.injEq, reduceCtorEq, if_false]
        omega
      simpa [ModuleManager.act, hfind] using hstep
  | unload x =>
    have hstep := h.balance rest [.unloaded x] hi h.sorted fun m => by
      simp [List.count_cons]
      omega
    simpa [ModuleManager.act] using hstep
  | put x =>
    have hsorted := OrdMap.pairwise_set (k := x.getId) (v := x) bytesLess_trans h.sorted
    have hstep := h.balance rest (((s.find x.getId).map Event.replaced).toList ++ [.added x]) hi
      hsorted fun m => by
        have hcount := OrdMap.count_values_set (k := x.getId) (v := x) bytesLess_keyed bytesLess_trans h.sorted m
        rw [show OrdMap.find bytesLess x.getId s.m_modules = s.find x.getId from rfl] at hcount
        cases hfind : s.find x.getId with
        | none =>
          rw [hfind] at hcount
          simp [List.count_cons] at hcount ⊢
          omega
        | some old =>
          rw [hfind] at hcount
          simp [List.count_cons] at hcount ⊢
          omega
    simpa [ModuleManager.act, List.append_assoc] using hstep
  | copy =>
    have hstep := h.balance (s.m_modules.map (fun e => .take e.1) ++ rest) [] hi h.sorted fun m => by
      have hnone : (s.m_modules.map fun e => Act.take e.1).count (.unload m) = 0 := by
        rw [List.count_eq_zero]
        simp
      simp [List.count_append, hnone]
    simpa [ModuleManager.act] using hstep

/-- No call begins with an `onUnload`. -/
theorem count_unload_acts (c : List Call) (m : Module) : (c.flatMap Call.acts).count (.unload m) = 0 := by
  rw [List.count_eq_zero, List.mem_flatMap]
  rintro ⟨call, -, hcall⟩
  cases call <;> simp [Call.acts] at hcall

/-- Threads that have not begun. -/
theorem accounted_new (calls : List (List Call)) : (new calls).Accounted := by
  refine ⟨.nil, fun m => ?_⟩
  have hnone : leaving (new calls) m = 0 := by
    induction calls with
    | nil => rfl
    | cons c calls ih =>
      simp only [leaving, new, List.map_cons, List.sum_cons, count_unload_acts, Nat.zero_add] at ih ⊢
      exact ih
  rw [hnone]
  rfl

end Accounts

/-- In every run every module is accounted for. -/
theorem accounted_run {calls : List (List Call)} {is : List Nat} {s : ModuleManager}
    (h : (system calls).Run anyStep is s) : s.Accounted := by
  refine h.invariant (I := fun _ s => s.Accounted) (accounted_new calls) ?_
  intro _ s i t ih _ hn
  obtain ⟨a, rest, hi, rfl⟩ := act_of_next hn
  exact ih.act hi

/-- **Where the modules are**: as often as a module was added, it is in the map, on its way to `onUnload`, was
unloaded, or was replaced. -/
theorem added_eq {calls : List (List Call)} {is : List Nat} {s : ModuleManager}
    (h : (system calls).Run anyStep is s) (m : Module) :
    s.log.count (.added m) = s.held m + s.leaving m + s.log.count (.unloaded m) + s.log.count (.replaced m) :=
  (accounted_run h).added m

/-! ### Calls of `add` that do not overlap -/

/-- The id that a thread between the two steps of `add` is about to put in. -/
def adding : List Act → Option Bytes
  | .put m :: _ => some m.getId
  | .unload _ :: .put m :: _ => some m.getId
  | _ => none

/-- The steps of whole calls: every `put` comes right after the `take` of its id. -/
inductive Whole : List Act → Prop
  | nil : Whole []
  | add (m : Module) {rest : List Act} (h : Whole rest) : Whole (.take m.getId :: .put m :: rest)
  | del (name : Bytes) {rest : List Act} (h : Whole rest) : Whole (.take name :: rest)
  | copy {rest : List Act} (h : Whole rest) : Whole (.copy :: rest)

/-- What a thread has left: whole calls, perhaps after the rest of one that it has begun. -/
inductive Begun : List Act → Prop
  | whole {rest : List Act} (h : Whole rest) : Begun rest
  | put (m : Module) {rest : List Act} (h : Whole rest) : Begun (.put m :: rest)
  | unload (x : Module) {rest : List Act} (h : Whole rest) : Begun (.unload x :: rest)
  | unloadPut (x m : Module) {rest : List Act} (h : Whole rest) : Begun (.unload x :: .put m :: rest)

/-- A step that begins an `add` comes when no other thread is between the two steps of an `add` of the same id. -/
def Apart (s : ModuleManager) (i : Nat) : Prop :=
  match s.threads[i]? with
  | some (.take _ :: .put m :: _) => ∀ j < s.threads.length, j ≠ i → s.threads[j]?.bind adding ≠ some m.getId
  | _ => True

/-- Whether a thread's step comes apart from the others' can be computed. -/
instance (s : ModuleManager) (i : Nat) : Decidable (s.Apart i) := by
  unfold Apart
  split <;> infer_instance

/-- Then no other thread adds the same module. -/
theorem Apart.ne {s : ModuleManager} {i j : Nat} {m : Module} {name : Bytes} {rest acts : List Act} (h : s.Apart i)
    (hi : s.threads[i]? = some (.take name :: .put m :: rest)) (hne : j ≠ i) (hj : s.threads[j]? = some acts) :
    adding acts ≠ some m.getId := by
  simp only [Apart, hi] at h
  have hother := h j (List.getElem?_eq_some_iff.mp hj).1 hne
  rwa [hj] at hother

/-- **No two threads are in an `add` of one id**, and the map has nothing under an id that is being added. -/
structure Lone (s : ModuleManager) : Prop where
  begun : ∀ (i : Nat) acts, s.threads[i]? = some acts → Begun acts
  absent : ∀ (i : Nat) acts k, s.threads[i]? = some acts → adding acts = some k → s.find k = none
  alone : ∀ (i j : Nat) acts acts' k, s.threads[i]? = some acts → s.threads[j]? = some acts' → adding acts = some k →
    adding acts' = some k → i = j
  kept : ∀ m, .replaced m ∉ s.log

/-- A whole list of acts is in the middle of no addition. -/
theorem Whole.adding_eq {acts : List Act} (h : Whole acts) : adding acts = none := by
  cases h <;> rfl

/-- Nor is one behind an unload. -/
theorem Whole.adding_unload {acts : List Act} (h : Whole acts) (x : Module) : adding (.unload x :: acts) = none := by
  cases h <;> rfl

/-- Names to be taken first keep it whole. -/
theorem Whole.takes {acts : List Act} (h : Whole acts) (names : List Bytes) : Whole (names.map Act.take ++ acts) := by
  induction names with
  | nil => exact h
  | cons name names ih => exact .del name ih

section Lone

variable {s : ModuleManager} {i : Nat}

/-- A step after which its thread is in no `add` that it was not in before. -/
theorem Lone.step {acts acts' : List Act} {modules : OrdMap Bytes Module} {log : List Event} (h : s.Lone)
    (hi : s.threads[i]? = some acts) (hbegun : Begun acts')
    (hadding : ∀ k, adding acts' = some k → OrdMap.find bytesLess k modules = none ∧
      ∀ (j : Nat) acts'', j ≠ i → s.threads[j]? = some acts'' → adding acts'' ≠ some k)
    (habsent : ∀ (j : Nat) acts'' k, j ≠ i → s.threads[j]? = some acts'' → adding acts'' = some k →
      OrdMap.find bytesLess k modules = none)
    (hkept : ∀ m, .replaced m ∉ log) : Lone ⟨modules, s.threads.set i acts', log⟩ := by
  have hlt := (List.getElem?_eq_some_iff.mp hi).1
  have hcases : ∀ (j : Nat) acts'', (s.threads.set i acts')[j]? = some acts'' →
      (j = i ∧ acts'' = acts') ∨ (j ≠ i ∧ s.threads[j]? = some acts'') := by
    intro j acts'' hj
    by_cases hij : j = i
    · subst hij
      rw [List.getElem?_set_self hlt] at hj
      exact .inl ⟨rfl, (Option.some.inj hj).symm⟩
    · rw [List.getElem?_set_ne (Ne.symm hij)] at hj
      exact .inr ⟨hij, hj⟩
  refine ⟨fun j acts'' hj => ?_, fun j acts'' k hj hk => ?_, fun j j' acts₁ acts₂ k hj hj' hk hk' => ?_, hkept⟩
  · rcases hcases j acts'' hj with ⟨-, rfl⟩ | ⟨-, hold⟩
    · exact hbegun
    · exact h.begun j acts'' hold
  · rcases hcases j acts'' hj with ⟨-, rfl⟩ | ⟨hne, hold⟩
    · exact (hadding k hk).1
    · exact habsent j acts'' k hne hold hk
  · rcases hcases j acts₁ hj with ⟨rfl, rfl⟩ | ⟨hne, hold⟩
    · rcases hcases j' acts₂ hj' with ⟨rfl, -⟩ | ⟨hne', hold'⟩
      · rfl
      · exact absurd hk' ((hadding k hk).2 j' acts₂ hne' hold')
    · rcases hcases j' acts₂ hj' with ⟨rfl, rfl⟩ | ⟨hne', hold'⟩
      · exact absurd hk ((hadding k hk').2 j acts₁ hne hold)
      · exact h.alone j j' acts₁ acts₂ k hold hold' hk hk'

/-- **Every step keeps two threads from being in an `add` of one id**, when none begins one beside another. -/
theorem Lone.act {a : Act} {rest : List Act} (h : s.Lone) (hi : s.threads[i]? = some (a :: rest)) (hapart : s.Apart i) :
    (s.act i rest a).Lone := by
  have hbegun := h.begun i _ hi
  cases a with
  | take name =>
    -- what the others are adding is still not in the map
    have herase : ∀ k, s.find k = none → OrdMap.find bytesLess k (OrdMap.erase bytesLess name s.m_modules) = none := by
      intro k hk
      by_cases hkey : k = name
      · subst hkey
        exact OrdMap.find_erase_self bytesLess_keyed rfl _
      · rw [OrdMap.find_erase_of_ne bytesLess_keyed hkey]
        exact hk
    have hwhole : Whole (.take name :: rest) := by
      cases hbegun with
      | whole hw => exact hw
    cases hfind : s.find name with
    | none =>
      have hstep : Lone ⟨s.m_modules, s.threads.set i rest, s.log⟩ := by
        cases hwhole with
        | del _ hw =>
          exact h.step hi (.whole hw) (fun k hk => absurd (hw.adding_eq.symm.trans hk) nofun)
            (fun j acts k _ hj hk => h.absent j acts k hj hk) h.kept
        | add m hw =>
          refine h.step hi (.put m hw) (fun k hk => ?_) (fun j acts k _ hj hk => h.absent j acts k hj hk) h.kept
          obtain rfl := Option.some.inj hk
          exact ⟨hfind, fun j acts hne hj => hapart.ne hi hne hj⟩
      simpa [ModuleManager.act, hfind] using hstep
    | some x =>
      have hstep : Lone ⟨OrdMap.erase bytesLess name s.m_modules, s.threads.set i (.unload x :: rest), s.log⟩ := by
        cases hwhole with
        | del _ hw =>
          exact h.step hi (.unload x hw) (fun k hk => absurd ((hw.adding_unload x).symm.trans hk) nofun)
            (fun j acts k _ hj hk => herase k (h.absent j acts k hj hk)) h.kept
        | add m hw =>
          refine h.step hi (.unloadPut x m hw) (fun k hk => ?_)
            (fun j acts k _ hj hk => herase k (h.absent j acts k hj hk)) h.kept
          obtain rfl := Option.some.inj hk
          exact ⟨OrdMap.find_erase_self bytesLess_keyed rfl _, fun j acts hne hj => hapart.ne hi hne hj⟩
      simpa [ModuleManager.act, hfind] using hstep
  | unload x =>
    have hkept : ∀ m, Event.replaced m ∉ s.log ++ [.unloaded x] := fun m hm => by
      rcases List.mem_append.mp hm with hm | hm
      · exact h.kept m hm
      · simp at hm
    cases hbegun with
    | whole hw => cases hw
    | unload _ hw =>
      exact h.step hi (.whole hw) (fun k hk => absurd (hw.adding_eq.symm.trans hk) nofun)
        (fun j acts k _ hj hk => h.absent j acts k hj hk) hkept
    | unloadPut _ m hw =>
      refine h.step hi (.put m hw) (fun k hk => ?_) (fun j acts k _ hj hk => h.absent j acts k hj hk) hkept
      refine ⟨h.absent i _ k hi hk, fun j acts hne hj hk' => hne ?_⟩
      exact (h.alone i j _ acts k hi hj hk hk').symm
  | put m =>
    have hnone : s.find m.getId = none := h.absent i _ m.getId hi rfl
    have hkept : ∀ x, Event.replaced x ∉ s.log ++ ((s.find m.getId).map Event.replaced).toList ++ [.added m] := by
      intro x hx
      rw [hnone] at hx
      rcases List.mem_append.mp hx with hx | hx
      · exact h.kept x (by simpa using hx)
      · simp at hx
    cases hbegun with
    | whole hw => cases hw
    | put _ hw =>
      refine h.step hi (.whole hw) (fun k hk => absurd (hw.adding_eq.symm.trans hk) nofun)
        (fun j acts k hne hj hk => ?_)
        hkept
      have hother : id k ≠ id m.getId := fun hkey =>
        hne (h.alone i j _ acts m.getId hi hj rfl (hk.trans (congrArg some hkey))).symm
      exact (OrdMap.find_set_of_ne bytesLess_keyed hother m s.m_modules).trans (h.absent j acts k hj hk)
  | copy =>
    cases hbegun with
    | whole hw =>
      cases hw with
      | copy hw =>
        have hnew := hw.takes (s.m_modules.map Prod.fst)
        rw [List.map_map] at hnew
        exact h.step hi (.whole hnew) (fun k hk => absurd (hnew.adding_eq.symm.trans hk) nofun)
          (fun j acts k _ hj hk => h.absent j acts k hj hk) h.kept

/-- The acts of calls are whole. -/
theorem whole_acts (c : List Call) : Whole (c.flatMap Call.acts) := by
  induction c with
  | nil => exact .nil
  | cons call c ih =>
    rw [List.flatMap_cons]
    cases call with
    | add m => exact .add m ih
    | del name => exact .del name ih
    | delAll => exact .copy ih

/-- At the start no thread adds a module. -/
theorem lone_new (calls : List (List Call)) : (new calls).Lone := by
  have hwhole : ∀ (i : Nat) acts, (new calls).threads[i]? = some acts → Whole acts := by
    intro i acts hi
    obtain ⟨c, -, rfl⟩ := List.mem_map.mp (List.mem_of_getElem? hi)
    exact whole_acts c
  have hnone : ∀ (i : Nat) acts k, (new calls).threads[i]? = some acts → adding acts ≠ some k :=
    fun i acts k hi hk => absurd ((hwhole i acts hi).adding_eq.symm.trans hk) nofun
  exact ⟨fun i acts hi => .whole (hwhole i acts hi), fun i acts k hi hk => absurd hk (hnone i acts k hi),
    fun i j acts acts' k hi _ hk _ => absurd hk (hnone i acts k hi), fun m => List.not_mem_nil⟩

end Lone

/-- **Each added module is unloaded once or still there**: in the runs in which no `add` begins while another thread is
between the two steps of an `add` of the same id, a module was added as often as it was unloaded, but for what is on its
way and what is in the map. -/
theorem added_once {calls : List (List Call)} {is : List Nat} {s : ModuleManager}
    (h : (system calls).Run Apart is s) (m : Module) :
    s.log.count (.added m) = s.held m + s.leaving m + s.log.count (.unloaded m) := by
  have hlone : s.Lone := by
    refine h.invariant (I := fun _ s => s.Lone) (lone_new calls) ?_
    intro _ s i t ih hapart hn
    obtain ⟨a, rest, hi, rfl⟩ := act_of_next hn
    exact ih.act hi hapart
  have hall := (accounted_run (h.mono fun _ _ _ => trivial)).added m
  rw [List.count_eq_zero.mpr (hlone.kept m)] at hall
  exact hall

/-- A thread that loads a module anew, beside one that deletes all. -/
def reload : List (List Call) := [[.add ⟨0, str "chat", str "1"⟩, .add ⟨1, str "chat", str "1"⟩], [.delAll]]

/-- The statement at a module that is reloaded. -/
theorem added_once_reload :
    ∃ s, (system reload).Run Apart [0, 0, 1, 1, 0, 0, 1] s ∧
      s.log.count (.added ⟨0, str "chat", str "1"⟩) =
        s.held ⟨0, str "chat", str "1"⟩ + s.leaving ⟨0, str "chat", str "1"⟩ +
          s.log.count (.unloaded ⟨0, str "chat", str "1"⟩) := by
  obtain ⟨s, hs⟩ : ∃ s, (system reload).exec (fun s i => decide (s.Apart i)) (.new reload) [0, 0, 1, 1, 0, 0, 1] =
      some s := ⟨_, rfl⟩
  have hrun : (system reload).Run Apart [0, 0, 1, 1, 0, 0, 1] s :=
    System.run_of_exec (fun _ _ => of_decide_eq_true) hs
  exact ⟨s, hrun, added_once hrun _⟩

/-- **Two threads that add modules of one id at once**: one of the modules is replaced, and its `onUnload` is never
called. -/
theorem added_at_once :
    ∃ s, (system [[.add ⟨0, str "chat", str "1"⟩], [.add ⟨1, str "chat", str "1"⟩]]).Run anyStep [0, 1, 0, 1] s ∧
      s.threads = [[], []] ∧ s.log = [.added ⟨0, str "chat", str "1"⟩, .replaced ⟨0, str "chat", str "1"⟩,
        .added ⟨1, str "chat", str "1"⟩] := by
  refine ⟨_, System.run_of_exec (g := fun _ _ => true) (fun _ _ _ => trivial) rfl, rfl, rfl⟩

end ModuleManager

end Modules
end Wuchat
