/-
# The members of a document

`config.cpp`: `listAllMember` goes through a document and lists every node below a name made of
the keys on the way, with a dot between two of them.  It goes into maps, and into the maps that
are items of a sequence; a sequence within a sequence is passed over.  Where a name has a
character that no name of a variable has, the node and all below it are left out.

`Node.At` says what is at the end of some keys, without an order and without names.  The list
holds just the nodes that are there under a valid name (`mem_listAllMember`): a valid name has only
valid names before it, so the early return leaves out nothing else.

`yaml-cpp` is not part of the repository: a node is what it loads, a conversion to `std::string` succeeds for a scalar
(`null` reads as the text), and an error is an exception.  Keys stand for their scalar texts (`Scalar()`), which is all
that is read of them.  A document with an alias to an anchor around it is no tree; it is left out.
-/

import Wuchat.Foundation.CString

namespace Wuchat
namespace Config

open Foundation

/-- `YAML::Node`. -/
inductive Node
  | null
  | scalar (text : Bytes)
  | sequence (items : List Node)
  | map (entries : List (Bytes × Node))

namespace Node

/-- `node[key]`; `none` is a node that is not defined. -/
def get (key : Bytes) : Node → Except String (Option Node)
  | map entries => .ok (entries.lookup key)
  | scalar _ => .error "operator[] call on a scalar"
  | _ => .ok none

/-- `node.as<std::string>()`. -/
def asString : Option Node → Except String Bytes
  | some (scalar text) => .ok text
  | some null => .ok (str "null")
  | some _ => .error "bad conversion"
  | none => .error "invalid node"

/-- The nodes that `for (auto i : node)` goes through.  The entries of a map are pairs and no nodes. -/
def items : Node → Except String (List Node)
  | sequence items => .ok items
  | map (_ :: _) => .error "invalid node"
  | _ => .ok []

end Node

/-- The characters that `find_first_not_of` lets through. -/
def nameChars : Bytes := str "qwertyuiopasdfghjklzxcvbnm._0123456789"

/-- `name.find_first_not_of(...) == npos`. -/
def validName (name : Bytes) : Bool := name.all (· ∈ nameChars)

/-- `prefix.empty() ? key : prefix + "." + key`. -/
def joinName (pre key : Bytes) : Bytes := if pre = [] then key else pre ++ str "." ++ key

mutual

/-- `listAllMember(prefix, node, output)`, as what it appends. -/
def listAllMember (pre : Bytes) (node : Node) : List (Bytes × Node) :=
  if validName pre then
    (pre, node) :: match node with
      | .map entries => listEntries pre entries
      | .sequence items => listItems pre items
      | _ => []
  else []
termination_by structural node

/-- The loop over the entries of a map. -/
def listEntries (pre : Bytes) (entries : List (Bytes × Node)) : List (Bytes × Node) :=
  match entries with
  | [] => []
  | (key, node) :: rest => listAllMember (joinName pre key) node ++ listEntries pre rest
termination_by structural entries

/-- The loop over the items of a sequence. -/
def listItems (pre : Bytes) (items : List Node) : List (Bytes × Node) :=
  match items with
  | [] => []
  | .map entries :: rest => listEntries pre entries ++ listItems pre rest
  | _ :: rest => listItems pre rest
termination_by structural items

end

/-! ### What is at a name -/

/-- **A node is at the end of some keys** below another: through the entries of maps, and through those of
the maps that are items of a sequence. -/
inductive Node.At : Node → List Bytes → Node → Prop
  | here (node : Node) : At node [] node
  | entry {entries : List (Bytes × Node)} {key : Bytes} {child : Node} {keys : List Bytes} {node : Node}
      (hmem : (key, child) ∈ entries) (h : At child keys node) : At (.map entries) (key :: keys) node
  | item {items : List Node} {entries : List (Bytes × Node)} {key : Bytes} {child : Node} {keys : List Bytes}
      {node : Node} (hitem : .map entries ∈ items) (hmem : (key, child) ∈ entries) (h : At child keys node) :
      At (.sequence items) (key :: keys) node

/-- The name that the keys make below `pre`. -/
def dotted (pre : Bytes) (keys : List Bytes) : Bytes := keys.foldl joinName pre

/-- No key behind the prefix. -/
@[simp] theorem dotted_nil (pre : Bytes) : dotted pre [] = pre := rfl

/-- One key, then the others. -/
@[simp] theorem dotted_cons (pre key : Bytes) (keys : List Bytes) :
    dotted pre (key :: keys) = dotted (joinName pre key) keys := rfl

/-- What a name is made of has the characters of the name. -/
theorem validName_of_joinName {pre key : Bytes} (h : validName (joinName pre key) = true) : validName pre = true := by
  unfold joinName at h
  split at h
  · rename_i hpre
    rw [hpre]
    rfl
  · unfold validName at h ⊢
    rw [List.append_assoc, List.all_append, Bool.and_eq_true] at h
    exact h.1

/-- **Before a valid name there are only valid names.** -/
theorem validName_of_dotted {pre : Bytes} {keys : List Bytes} (h : validName (dotted pre keys) = true) :
    validName pre = true := by
  induction keys generalizing pre with
  | nil => exact h
  | cons key keys ih => exact validName_of_joinName (ih h)

/-- A valid name is in lower case already. -/
theorem map_tolower_of_validName {name : Bytes} (h : validName name = true) : name.map tolower = name := by
  have hlower : ∀ c ∈ nameChars, tolower c = c := by decide +kernel
  have hall : ∀ c ∈ name, tolower c = c := fun c hc => hlower c (by simpa using List.all_eq_true.mp h c hc)
  exact (List.map_congr_left hall).trans (List.map_id name)

/-! ### The list of the members -/

/-- The members of a map's entries. -/
theorem listEntries_eq (pre : Bytes) (entries : List (Bytes × Node)) :
    listEntries pre entries = entries.flatMap fun e => listAllMember (joinName pre e.1) e.2 := by
  induction entries with
  | nil => rfl
  | cons e rest ih => rw [listEntries, ih, List.flatMap_cons]

/-- The members of a sequence are those of its maps. -/
theorem mem_listItems {pre : Bytes} {items : List Node} {x : Bytes × Node} :
    x ∈ listItems pre items ↔ ∃ entries, .map entries ∈ items ∧ x ∈ listEntries pre entries := by
  induction items with
  | nil => simp [listItems]
  | cons item rest ih =>
    cases item with
    | map entries => simp [listItems, ih, or_and_right, exists_or]
    | null | scalar text | sequence items => simp [listItems, ih]

/-- A node under a valid name is listed. -/
theorem mem_listAllMember_of_at {root node : Node} {keys : List Bytes} (h : root.At keys node) {pre : Bytes}
    (hname : validName (dotted pre keys) = true) : (dotted pre keys, node) ∈ listAllMember pre root := by
  induction h generalizing pre with
  | here node =>
    rw [listAllMember.eq_def, if_pos (validName_of_dotted hname)]
    exact List.mem_cons_self
  | entry hmem _ ih =>
    rw [listAllMember.eq_def, if_pos (validName_of_dotted hname)]
    refine List.mem_cons_of_mem _ ?_
    dsimp only
    rw [listEntries_eq]
    exact List.mem_flatMap.mpr ⟨_, hmem, ih hname⟩
  | item hitem hmem _ ih =>
    rw [listAllMember.eq_def, if_pos (validName_of_dotted hname)]
    refine List.mem_cons_of_mem _ (mem_listItems.mpr ⟨_, hitem, ?_⟩)
    rw [listEntries_eq]
    exact List.mem_flatMap.mpr ⟨_, hmem, ih hname⟩

/-- A map's value is smaller than the map. -/
theorem Node.sizeOf_entry {entries : List (Bytes × Node)} {e : Bytes × Node} (h : e ∈ entries) :
    sizeOf e.2 < sizeOf entries := by
  have hlt := List.sizeOf_lt_of_mem h
  have hsnd : sizeOf e = 1 + sizeOf e.1 + sizeOf e.2 := rfl
  omega

/-- What is listed is there, under its name. -/
theorem at_of_mem_listAllMember {pre name : Bytes} {node : Node} (root : Node)
    (h : (name, node) ∈ listAllMember pre root) :
    validName name = true ∧ ∃ keys, root.At keys node ∧ name = dotted pre keys := by
  rw [listAllMember.eq_def] at h
  split at h
  · rename_i hpre
    rcases List.mem_cons.mp h with heq | hbelow
    · obtain ⟨rfl, rfl⟩ := Prod.mk.inj heq
      exact ⟨hpre, [], .here _, rfl⟩
    · cases hroot : root with
      | map entries =>
        rw [hroot] at hbelow
        dsimp only at hbelow
        rw [listEntries_eq] at hbelow
        obtain ⟨e, hmem, he⟩ := List.mem_flatMap.mp hbelow
        have hsmall : sizeOf e.2 < sizeOf root := by
          have hentry := Node.sizeOf_entry hmem
          simp only [hroot, Node.map.sizeOf_spec]
          omega
        obtain ⟨hname, keys, hat, hdot⟩ := at_of_mem_listAllMember e.2 he
        exact ⟨hname, e.1 :: keys, .entry hmem hat, hdot⟩
      | sequence items =>
        rw [hroot] at hbelow
        obtain ⟨entries, hitem, hmap⟩ := mem_listItems.mp hbelow
        rw [listEntries_eq] at hmap
        obtain ⟨e, hmem, he⟩ := List.mem_flatMap.mp hmap
        have hsmall : sizeOf e.2 < sizeOf root := by
          have hentry := Node.sizeOf_entry hmem
          have hmapped := List.sizeOf_lt_of_mem hitem
          simp only [hroot, Node.sequence.sizeOf_spec, Node.map.sizeOf_spec] at hmapped ⊢
          omega
        obtain ⟨hname, keys, hat, hdot⟩ := at_of_mem_listAllMember e.2 he
        exact ⟨hname, e.1 :: keys, .item hitem hmem hat, hdot⟩
      | null | scalar text =>
        rw [hroot] at hbelow
        cases hbelow
  · cases h
termination_by sizeOf root
decreasing_by
  · exact hsmall
  · exact hsmall

/-- What is listed below a name. -/
theorem mem_listAllMember_iff {pre name : Bytes} {root node : Node} :
    (name, node) ∈ listAllMember pre root ↔
      validName name = true ∧ ∃ keys, root.At keys node ∧ name = dotted pre keys := by
  constructor
  · exact at_of_mem_listAllMember root
  · rintro ⟨hname, keys, hat, rfl⟩
    exact mem_listAllMember_of_at hat hname

/-- **The members of a document are the nodes under valid names**: `listAllMember` lists a node under a name just
when the name is valid and keys that make it lead to the node. -/
theorem mem_listAllMember (name : Bytes) (root node : Node) :
    (name, node) ∈ listAllMember [] root ↔
      validName name = true ∧ ∃ keys, root.At keys node ∧ name = keys.foldl joinName [] :=
  mem_listAllMember_iff

end Config
end Wuchat
