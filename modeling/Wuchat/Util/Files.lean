/-
# Listing and removing directories

`ext.cpp`: `FSUtil::ListAllFile` goes through a directory and those below it and lists the regular files whose
names end in some text; `FSUtil::Rm` removes a file, or a directory with all below it.

A directory is the list of its entries as `readdir` gives them, without "." and "..", and says whether it can be opened
and whether an entry can be removed from it.  `readdir` gives the kind of every entry: a file system that leaves it
open (`DT_UNKNOWN`) has its files not listed.  Whether `lstat` of a path succeeds is a parameter.  The test of `Rm` for
a directory is one bit of `st_mode`, which block devices and sockets have too: it tries to open them as directories, and
they stay.

What stays after `Rm` is what `lstat` fails for, with all in it; what cannot be removed; a directory that cannot be
opened, be it empty, with all in it; and the directories above these.  `Rm` returns true exactly when nothing stays or
`lstat` of its path fails (`rm_stays`): the return values of all entries but the last of a directory are dropped, but
`rmdir` fails when one of them stays.  `ListAllFile` lists just the files that are there (`mem_listAllFile`).
-/

import Wuchat.Foundation.CString

namespace Wuchat
namespace FSUtil

open Foundation

/-- What is not a directory: a regular file, a symbolic link, a character or block device, a pipe or a socket. -/
inductive Kind
  | reg
  | lnk
  | chr
  | blk
  | fifo
  | sock
  deriving DecidableEq, Repr

/-- The bits of `st_mode` for the kind of a file. -/
def Kind.st_mode : Kind → UInt32
  | .reg => 0x8000
  | .lnk => 0xA000
  | .chr => 0x2000
  | .blk => 0x6000
  | .fifo => 0x1000
  | .sock => 0xC000

/-- `S_IFDIR`. -/
def S_IFDIR : UInt32 := 0x4000

/-- An entry of a directory: a file, or a directory, which may be opened or not, and from which entries may be
removed or not. -/
inductive Entry
  | file (kind : Kind)
  | dir (readable writable : Bool) (entries : List (Bytes × Entry))

/-- `path + "/" + name`. -/
def join (path name : Bytes) : Bytes := path ++ str "/" ++ name

/-- The tests of a file name for its end. -/
def hasSubfix (subfix filename : Bytes) : Bool :=
  if subfix = [] then true
  else if filename.length < subfix.length then false
  else filename.drop (filename.length - subfix.length) == subfix

mutual

/-- `ListAllFile(files, path, subfix)`, as what it appends, for what is at the path. -/
def listAllFile (subfix path : Bytes) (e : Entry) : List Bytes :=
  match e with
  | .dir true _ entries => listEntries subfix path entries
  | _ => []
termination_by structural e

/-- The loop over the entries of a directory. -/
def listEntries (subfix path : Bytes) (entries : List (Bytes × Entry)) : List Bytes :=
  match entries with
  | [] => []
  | (name, e) :: rest =>
    (match e with
    | .file kind => if kind = .reg ∧ hasSubfix subfix name = true then [join path name] else []
    | .dir _ _ _ => listAllFile subfix (join path name) e) ++ listEntries subfix path rest
termination_by structural entries

end

section Rm

-- whether `lstat` of a path succeeds
variable (lstat : Bytes → Bool)

mutual

/-- `Rm(path)` for what is at the path, in a directory from which entries may be removed or not: what it returns, and
what stays. -/
def rm (writable : Bool) (path : Bytes) (e : Entry) : Bool × Option Entry :=
  if lstat path then
    match e with
    | .file kind =>
      if kind.st_mode &&& S_IFDIR = 0 then (writable, if writable then none else some e)
      else (false, some e)
    | .dir readable inside entries =>
      if readable then
        let found := rmEntries inside path true entries
        if found.2.isEmpty && writable then (found.1, none) else (false, some (.dir readable inside found.2))
      else (false, some e)
  else (true, some e)
termination_by structural e

/-- The loop over the entries of a directory: the return value of the last, and what stays. -/
def rmEntries (writable : Bool) (path : Bytes) (ret : Bool) (entries : List (Bytes × Entry)) :
    Bool × List (Bytes × Entry) :=
  match entries with
  | [] => (ret, [])
  | (name, e) :: rest =>
    let gone := rm writable (join path name) e
    let later := rmEntries writable path gone.1 rest
    (later.1, (gone.2.map (name, ·)).toList ++ later.2)
termination_by structural entries

end

end Rm

/-! ### What is at the end of some names -/

/-- An entry is at the end of some names, through directories that can be opened, or, if `all` is set, through any. -/
inductive Entry.At (all : Bool) : Entry → List Bytes → Entry → Prop
  | here (e : Entry) : At all e [] e
  | entry {readable writable : Bool} {entries : List (Bytes × Entry)} {name : Bytes} {child x : Entry}
      {names : List Bytes} (hopen : readable = true ∨ all = true) (hmem : (name, child) ∈ entries)
      (h : At all child names x) : At all (.dir readable writable entries) (name :: names) x

/-- The path that the names make below another. -/
def joined (path : Bytes) (names : List Bytes) : Bytes := names.foldl join path

/-- **What has to stay**, in a directory from which entries may be removed or not: what `lstat` fails for and all in it,
what cannot be removed, a directory that cannot be opened and all in it, and the directories above what stays. -/
inductive Entry.Stays (lstat : Bytes → Bool) : Bool → Bytes → Entry → List Bytes → Prop
  | unseen {writable : Bool} {path : Bytes} {e x : Entry} {names : List Bytes} (hlstat : lstat path = false)
      (h : Entry.At true e names x) : Stays lstat writable path e names
  | file {writable : Bool} {path : Bytes} {kind : Kind} (h : writable = false ∨ kind = .blk ∨ kind = .sock) :
      Stays lstat writable path (.file kind) []
  | shut {writable inside : Bool} {path : Bytes} {entries : List (Bytes × Entry)} {names : List Bytes} {x : Entry}
      (h : Entry.At true (.dir false inside entries) names x) :
      Stays lstat writable path (.dir false inside entries) names
  | locked {inside : Bool} {path : Bytes} {entries : List (Bytes × Entry)} :
      Stays lstat false path (.dir true inside entries) []
  | above {writable inside : Bool} {path : Bytes} {entries : List (Bytes × Entry)} {name : Bytes} {child : Entry}
      {names : List Bytes} (hmem : (name, child) ∈ entries) (h : Stays lstat inside (join path name) child names) :
      Stays lstat writable path (.dir true inside entries) []
  | within {writable inside : Bool} {path : Bytes} {entries : List (Bytes × Entry)} {name : Bytes} {child : Entry}
      {names : List Bytes} (hmem : (name, child) ∈ entries) (h : Stays lstat inside (join path name) child names) :
      Stays lstat writable path (.dir true inside entries) (name :: names)

/-! ### Removing -/

/-- A directory's entry is smaller than the directory. -/
theorem Entry.sizeOf_child {entries : List (Bytes × Entry)} {name : Bytes} {e : Entry} (h : (name, e) ∈ entries) :
    sizeOf e < sizeOf entries := by
  have hlt := List.sizeOf_lt_of_mem h
  have hpair : sizeOf (name, e) = 1 + sizeOf name + sizeOf e := rfl
  omega

/-- The bit of `st_mode` for directories is the one of block devices and sockets. -/
theorem isDir_iff (kind : Kind) : kind.st_mode &&& S_IFDIR = 0 ↔ ¬ (kind = .blk ∨ kind = .sock) := by
  cases kind <;> decide

section Removing

variable {lstat : Bytes → Bool} {writable : Bool} {path : Bytes}

/-- What `lstat` fails for stays as it is, and the answer is true. -/
theorem rm_unseen (h : lstat path = false) (e : Entry) : rm lstat writable path e = (true, some e) := by
  rw [rm.eq_def, h, if_neg Bool.false_ne_true]

/-- What stays of the entries of a directory. -/
theorem mem_rmEntries (ret : Bool) {entries : List (Bytes × Entry)} {name : Bytes} {left : Entry} :
    (name, left) ∈ (rmEntries lstat writable path ret entries).2 ↔
      ∃ e, (name, e) ∈ entries ∧ (rm lstat writable (join path name) e).2 = some left := by
  induction entries generalizing ret with
  | nil => simp [rmEntries]
  | cons x rest ih =>
    obtain ⟨name', e⟩ := x
    simp only [rmEntries, List.mem_append, Option.mem_toList, Option.map_eq_some_iff, Prod.mk.injEq, ih, List.mem_cons]
    constructor
    · rintro (⟨left', hleft, rfl, rfl⟩ | ⟨e', hmem, hleft⟩)
      · exact ⟨e, .inl ⟨rfl, rfl⟩, hleft⟩
      · exact ⟨e', .inr hmem, hleft⟩
    · rintro ⟨e', ⟨rfl, rfl⟩ | hmem, hleft⟩
      · exact .inl ⟨left, hleft, rfl, rfl⟩
      · exact .inr ⟨e', hmem, hleft⟩

/-- The loop returns true when nothing is left, if the removal of each entry does. -/
theorem rmEntries_ret {ret : Bool} {entries : List (Bytes × Entry)} (hret : ret = true)
    (hall : ∀ name e, (name, e) ∈ entries → (rm lstat writable (join path name) e).2 = none →
      (rm lstat writable (join path name) e).1 = true)
    (hnone : (rmEntries lstat writable path ret entries).2 = []) :
    (rmEntries lstat writable path ret entries).1 = true := by
  induction entries generalizing ret with
  | nil => exact hret
  | cons x rest ih =>
    obtain ⟨name, e⟩ := x
    obtain ⟨hgone, hlater⟩ := List.append_eq_nil_iff.mp hnone
    have hgone : (rm lstat writable (join path name) e).2 = none := by simpa using hgone
    exact ih (hall name e List.mem_cons_self hgone) (fun n c hc => hall n c (List.mem_cons_of_mem _ hc)) hlater

/-- **`Rm` returns true exactly when nothing stays**, of a path that `lstat` succeeds for. -/
theorem rm_true_iff (writable : Bool) {path : Bytes} (hseen : lstat path = true) (e : Entry) :
    (rm lstat writable path e).1 = true ↔ (rm lstat writable path e).2 = none := by
  rw [rm.eq_def, if_pos hseen]
  cases e with
  | file kind =>
    dsimp only
    split
    · cases writable <;> simp
    · simp
  | dir readable inside entries =>
    dsimp only
    split
    · split
      · rename_i hend
        rw [Bool.and_eq_true, List.isEmpty_iff] at hend
        have hret : (rmEntries lstat inside path true entries).1 = true := by
          refine rmEntries_ret rfl (fun name c hc hnone => ?_) hend.1
          have hsmall := Entry.sizeOf_child hc
          cases hlstat : lstat (join path name) with
          | true => exact (rm_true_iff inside hlstat c).mpr hnone
          | false => rw [rm_unseen hlstat]
        simp [hret]
      · simp
    · simp
termination_by sizeOf e
decreasing_by
  simp only [Entry.dir.sizeOf_spec]
  omega

/-- A directory of which an entry is left is left with it. -/
theorem rm_of_left {inside : Bool} {entries : List (Bytes × Entry)} {name : Bytes} {child left : Entry}
    (hseen : lstat path = true) (hmem : (name, child) ∈ entries)
    (hleft : (rm lstat inside (join path name) child).2 = some left) :
    (rm lstat writable path (.dir true inside entries)).2 =
        some (.dir true inside (rmEntries lstat inside path true entries).2) ∧
      (name, left) ∈ (rmEntries lstat inside path true entries).2 := by
  have hstays := (mem_rmEntries true).mpr ⟨child, hmem, hleft⟩
  have hne : (rmEntries lstat inside path true entries).2.isEmpty = false := by
    rw [List.isEmpty_eq_false_iff]
    exact List.ne_nil_of_mem hstays
  refine ⟨?_, hstays⟩
  rw [rm.eq_def, if_pos hseen]
  simp [hne]

/-- What has to stay is in the directory. -/
theorem exists_at_of_stays {e : Entry} {names : List Bytes} (h : e.Stays lstat writable path names) :
    ∃ x, e.At true names x := by
  induction h with
  | unseen _ h => exact ⟨_, h⟩
  | file _ => exact ⟨_, .here _⟩
  | shut h => exact ⟨_, h⟩
  | locked => exact ⟨_, .here _⟩
  | above _ _ _ => exact ⟨_, .here _⟩
  | within hmem _ ih =>
    obtain ⟨x, hx⟩ := ih
    exact ⟨x, .entry (.inr rfl) hmem hx⟩

/-- What has to stay is left. -/
theorem left_of_stays {e : Entry} {names : List Bytes} (h : e.Stays lstat writable path names) :
    ∃ left x, (rm lstat writable path e).2 = some left ∧ left.At true names x := by
  induction h with
  | unseen hlstat h => exact ⟨_, _, by rw [rm_unseen hlstat], h⟩
  | @file writable path kind h =>
    refine ⟨.file kind, .file kind, ?_, .here _⟩
    rw [rm.eq_def]
    dsimp only
    split
    · split
      · rename_i hplain
        rcases h with rfl | hspecial
        · rfl
        · exact absurd hspecial ((isDir_iff kind).mp hplain)
      · rfl
    · rfl
  | @shut writable inside path entries names x h =>
    refine ⟨.dir false inside entries, x, ?_, h⟩
    rw [rm.eq_def]
    split <;> rfl
  | @locked inside path entries =>
    cases hlstat : lstat path with
    | false => exact ⟨_, _, by rw [rm_unseen hlstat], .here _⟩
    | true =>
      refine ⟨.dir true inside (rmEntries lstat inside path true entries).2, _, ?_, .here _⟩
      rw [rm.eq_def, if_pos hlstat]
      simp
  | @above writable inside path entries name child names hmem _ ih =>
    cases hlstat : lstat path with
    | false => exact ⟨_, _, by rw [rm_unseen hlstat], .here _⟩
    | true =>
      obtain ⟨left, x, hleft, -⟩ := ih
      exact ⟨_, _, (rm_of_left hlstat hmem hleft).1, .here _⟩
  | @within writable inside path entries name child names hmem hstays ih =>
    obtain ⟨left, x, hleft, hat⟩ := ih
    cases hlstat : lstat path with
    | false =>
      obtain ⟨y, hy⟩ := exists_at_of_stays hstays
      exact ⟨_, y, by rw [rm_unseen hlstat], .entry (.inr rfl) hmem hy⟩
    | true =>
      obtain ⟨hdir, hin⟩ := rm_of_left hlstat hmem hleft
      exact ⟨_, x, hdir, .entry (.inr rfl) hin hat⟩

/-- Nothing else is left. -/
theorem stays_of_left {writable : Bool} {path : Bytes} (e : Entry) {left x : Entry} {names : List Bytes}
    (hleft : (rm lstat writable path e).2 = some left) (hat : left.At true names x) :
    e.Stays lstat writable path names := by
  cases hlstat : lstat path with
  | false =>
    rw [rm_unseen hlstat] at hleft
    obtain rfl := Option.some.inj hleft
    exact .unseen hlstat hat
  | true =>
    rw [rm.eq_def, if_pos hlstat] at hleft
    cases he : e with
    | file kind =>
      rw [he] at hleft
      dsimp only at hleft
      split at hleft
      · cases writable with
        | true => cases hleft
        | false =>
          obtain rfl := Option.some.inj hleft
          cases hat
          exact .file (.inl rfl)
      · rename_i hspecial
        obtain rfl := Option.some.inj hleft
        cases hat
        exact .file (.inr (Decidable.not_not.mp fun hplain => hspecial ((isDir_iff kind).mpr hplain)))
    | dir readable inside entries =>
      have hsmall : ∀ {name : Bytes} {child : Entry}, (name, child) ∈ entries → sizeOf child < sizeOf e := by
        intro name child hchild
        have hlt := Entry.sizeOf_child hchild
        simp only [he, Entry.dir.sizeOf_spec]
        omega
      rw [he] at hleft
      dsimp only at hleft
      cases readable with
      | false =>
        obtain rfl := Option.some.inj hleft
        exact .shut hat
      | true =>
        rw [if_pos rfl] at hleft
        split at hleft
        · cases hleft
        · rename_i hstays
          obtain rfl := Option.some.inj hleft
          cases hat with
          | here =>
            cases writable with
            | false => exact .locked
            | true =>
              have hne : (rmEntries lstat inside path true entries).2 ≠ [] := by simpa using hstays
              obtain ⟨⟨name, rest⟩, hmem⟩ := List.exists_mem_of_ne_nil _ hne
              obtain ⟨child, hchild, hrest⟩ := (mem_rmEntries true).mp hmem
              have hdown := hsmall hchild
              exact .above hchild (stays_of_left child hrest (.here rest))
          | entry _ hmem hbelow =>
            obtain ⟨child, hchild, hrest⟩ := (mem_rmEntries true).mp hmem
            have hdown := hsmall hchild
            exact .within hchild (stays_of_left child hrest hbelow)
termination_by sizeOf e
decreasing_by
  · exact hdown
  · exact hdown

end Removing

/-- **What `Rm` leaves, and what it returns**: an entry stays exactly when it has to, and the answer is true
exactly when none has to or `lstat` of the path fails. -/
theorem rm_stays (lstat : Bytes → Bool) (writable : Bool) (path : Bytes) (e : Entry) :
    ((rm lstat writable path e).1 = true ↔ lstat path = false ∨ ∀ names, ¬ e.Stays lstat writable path names) ∧
      ∀ names, (∃ left x, (rm lstat writable path e).2 = some left ∧ left.At true names x) ↔
        e.Stays lstat writable path names := by
  refine ⟨?_, fun names => ⟨fun ⟨_, _, hleft, hat⟩ => stays_of_left e hleft hat, left_of_stays⟩⟩
  cases hlstat : lstat path with
  | false => simp [rm_unseen hlstat]
  | true =>
    rw [rm_true_iff writable hlstat]
    constructor
    · intro hnone
      refine .inr fun names hstays => ?_
      obtain ⟨left, x, hleft, -⟩ := left_of_stays hstays
      rw [hnone] at hleft
      cases hleft
    · rintro (hunseen | hall)
      · cases hunseen
      · cases hleft : (rm lstat writable path e).2 with
        | none => rfl
        | some left => exact absurd (stays_of_left e hleft (.here left)) (hall [])

/-! ### Listing -/

/-- The tests for the end of a name. -/
theorem hasSubfix_iff {subfix filename : Bytes} : hasSubfix subfix filename = true ↔ subfix <:+ filename := by
  unfold hasSubfix
  split
  · rename_i hempty
    simp [hempty]
  · split
    · rename_i hshort
      refine ⟨nofun, fun h => absurd h.length_le (Nat.not_le.mpr hshort)⟩
    · rw [beq_iff_eq]
      exact ⟨fun h => h ▸ List.drop_suffix _ _, fun h => (List.suffix_iff_eq_drop.mp h).symm⟩

/-- The loop over the entries lists what each of them gives. -/
theorem mem_listEntries {subfix path file : Bytes} {entries : List (Bytes × Entry)} :
    file ∈ listEntries subfix path entries ↔
      ∃ name e, (name, e) ∈ entries ∧
        ((e = .file .reg ∧ subfix <:+ name ∧ file = join path name) ∨
          file ∈ listAllFile subfix (join path name) e) := by
  induction entries with
  | nil => simp [listEntries]
  | cons x rest ih =>
    obtain ⟨name, e⟩ := x
    rw [listEntries.eq_def]
    dsimp only
    rw [List.mem_append, ih]
    have hhead : (file ∈ match e with
        | .file kind => if kind = Kind.reg ∧ hasSubfix subfix name = true then [join path name] else []
        | .dir _ _ _ => listAllFile subfix (join path name) e) ↔
        (e = .file .reg ∧ subfix <:+ name ∧ file = join path name) ∨ file ∈ listAllFile subfix (join path name) e := by
      cases e with
      | file kind => simp [listAllFile, hasSubfix_iff, and_assoc]
      | dir readable writable entries => simp
    rw [hhead]
    constructor
    · rintro (h | ⟨name', e', hmem, h⟩)
      · exact ⟨name, e, List.mem_cons_self, h⟩
      · exact ⟨name', e', List.mem_cons_of_mem _ hmem, h⟩
    · rintro ⟨name', e', hmem, h⟩
      rcases List.mem_cons.mp hmem with heq | hmem
      · obtain ⟨rfl, rfl⟩ := Prod.mk.inj heq
        exact .inl h
      · exact .inr ⟨name', e', hmem, h⟩

/-- A file that is there is listed. -/
theorem mem_listAllFile_of_at {subfix path name : Bytes} {names : List Bytes} {e : Entry}
    (hat : e.At false (names ++ [name]) (.file .reg)) (hsubfix : subfix <:+ name) :
    joined path (names ++ [name]) ∈ listAllFile subfix path e := by
  induction names generalizing e path with
  | nil =>
    cases hat with
    | @entry readable _ _ _ child _ _ hopen hmem h =>
      cases h
      obtain rfl : readable = true := hopen.resolve_right nofun
      rw [listAllFile.eq_def]
      exact mem_listEntries.mpr ⟨name, _, hmem, .inl ⟨rfl, hsubfix, rfl⟩⟩
  | cons first names ih =>
    cases hat with
    | @entry readable _ _ _ child _ _ hopen hmem h =>
      obtain rfl : readable = true := hopen.resolve_right nofun
      rw [listAllFile.eq_def]
      exact mem_listEntries.mpr ⟨first, child, hmem, .inr (ih h)⟩

/-- What is listed is there. -/
theorem at_of_mem_listAllFile {subfix path file : Bytes} (e : Entry) (h : file ∈ listAllFile subfix path e) :
    ∃ names name, e.At false (names ++ [name]) (.file .reg) ∧ subfix <:+ name ∧
      file = joined path (names ++ [name]) := by
  rw [listAllFile.eq_def] at h
  cases he : e with
  | file kind =>
    rw [he] at h
    cases h
  | dir readable writable entries =>
    rw [he] at h
    cases readable with
    | false => cases h
    | true =>
      obtain ⟨first, child, hmem, ⟨rfl, hsubfix, rfl⟩ | hbelow⟩ := mem_listEntries.mp h
      · exact ⟨[], first, .entry (.inl rfl) hmem (.here _), hsubfix, rfl⟩
      · have hdown : sizeOf child < sizeOf e := by
          have hlt := Entry.sizeOf_child hmem
          simp only [he, Entry.dir.sizeOf_spec]
          omega
        obtain ⟨names, name, hat, hsubfix, hfile⟩ := at_of_mem_listAllFile child hbelow
        exact ⟨first :: names, name, .entry (.inl rfl) hmem hat, hsubfix, hfile⟩
termination_by sizeOf e
decreasing_by exact hdown

/-- **The files that `ListAllFile` lists** are the regular files below the path, in directories that can be
opened, whose own names end in the text. -/
theorem mem_listAllFile (subfix path file : Bytes) (e : Entry) :
    file ∈ listAllFile subfix path e ↔
      ∃ names name, e.At false (names ++ [name]) (.file .reg) ∧ subfix <:+ name ∧
        file = joined path (names ++ [name]) := by
  constructor
  · exact at_of_mem_listAllFile e
  · rintro ⟨names, name, hat, hsubfix, rfl⟩
    exact mem_listAllFile_of_at hat hsubfix

end FSUtil
end Wuchat
