/-
# Which servlet serves a path

`http/servlet.cpp`: `ServletDispatch` keeps servlets under exact paths (`m_data`),
servlets under patterns in the order they were added (`m_glob`), and a default.
`http/ws_servlet.cpp` asks the same tables and casts what it gets.

The tables are changed one call at a time, each under the write lock, so what they
hold is told by the history of the calls (`Change`).  `getMatchedServlet_of_changes`
reads the answer for a path off the history: the last word on the exact path
if that word was an `addServlet`; else, of the patterns still registered, the one
registered longest ago that matches; else the last default.  A pattern that is added
again loses its place.

`fnmatch` is the C library's and stands here as a parameter, true for its `0`.
-/

import Wuchat.Foundation.CString
import Wuchat.Foundation.Histories

namespace Wuchat
namespace Http

open Foundation

/-- `ServletDispatch`, over whatever servlets are; `none` is a null pointer. -/
structure ServletDispatch (σ : Type) where
  m_data : OrdMap Bytes (Option σ)
  m_glob : List (Bytes × Option σ)
  m_default : Option σ

namespace ServletDispatch

variable {σ : Type}

/-- `ServletDispatch()`, with the `ServletNotFound` it makes. -/
def new (notFound : σ) : ServletDispatch σ := ⟨[], [], some notFound⟩

/-- `getServlet(uri)`. -/
def getServlet (d : ServletDispatch σ) (uri : Bytes) : Option σ :=
  match OrdMap.find bytesLess uri d.m_data with
  | none => none
  | some servlet => servlet

/-- `getGlobServlet(uri)`: the servlet of a pattern, not of what it matches. -/
def getGlobServlet (d : ServletDispatch σ) (uri : Bytes) : Option σ :=
  match d.m_glob.find? fun glob => glob.1 = uri with
  | none => none
  | some glob => glob.2

/-- `getMatchedServlet(uri)`. -/
def getMatchedServlet (fnmatch : Bytes → Bytes → Bool) (d : ServletDispatch σ) (uri : Bytes) : Option σ :=
  match OrdMap.find bytesLess uri d.m_data with
  | some servlet => servlet
  | none =>
    match d.m_glob.find? fun glob => fnmatch (cstr glob.1) (cstr uri) with
    | some glob => glob.2
    | none => d.m_default

/-- `addServlet(uri, servlet)`; the overload for a callback makes a `FunctionServlet` of it first. -/
def addServlet (d : ServletDispatch σ) (uri : Bytes) (servlet : Option σ) : ServletDispatch σ :=
  { d with m_data := OrdMap.set bytesLess uri servlet d.m_data }

/-- `delServlet(uri)`. -/
def delServlet (d : ServletDispatch σ) (uri : Bytes) : ServletDispatch σ :=
  { d with m_data := OrdMap.erase bytesLess uri d.m_data }

/-- `addGlobServlet(uri, servlet)`: the first entry of the pattern goes, the new one comes last. -/
def addGlobServlet (d : ServletDispatch σ) (uri : Bytes) (servlet : Option σ) : ServletDispatch σ :=
  { d with m_glob := d.m_glob.eraseP (fun glob => glob.1 = uri) ++ [(uri, servlet)] }

/-- `delGlobServlet(uri)`. -/
def delGlobServlet (d : ServletDispatch σ) (uri : Bytes) : ServletDispatch σ :=
  { d with m_glob := d.m_glob.eraseP fun glob => glob.1 = uri }

/-- `setDefault(servlet)`. -/
def setDefault (d : ServletDispatch σ) (servlet : Option σ) : ServletDispatch σ :=
  { d with m_default := servlet }

/-- A call that changes the tables. -/
inductive Change (σ : Type)
  | addServlet (uri : Bytes) (servlet : Option σ)
  | delServlet (uri : Bytes)
  | addGlobServlet (uri : Bytes) (servlet : Option σ)
  | delGlobServlet (uri : Bytes)
  | setDefault (servlet : Option σ)

/-- What a call does. -/
def change (d : ServletDispatch σ) : Change σ → ServletDispatch σ
  | .addServlet uri servlet => d.addServlet uri servlet
  | .delServlet uri => d.delServlet uri
  | .addGlobServlet uri servlet => d.addGlobServlet uri servlet
  | .delGlobServlet uri => d.delGlobServlet uri
  | .setDefault servlet => d.setDefault servlet

/-! ### What a call says of each table -/

/-- The change of the exact paths. -/
def Change.data : Change σ → Option (Bytes × Option (Option σ))
  | .addServlet uri servlet => some (uri, some servlet)
  | .delServlet uri => some (uri, none)
  | _ => none

/-- The change of the patterns. -/
def Change.glob : Change σ → Option (Bytes × Option (Option σ))
  | .addGlobServlet uri servlet => some (uri, some servlet)
  | .delGlobServlet uri => some (uri, none)
  | _ => none

/-- The change of the default. -/
def Change.default : Change σ → Option (Option σ)
  | .setDefault servlet => some servlet
  | _ => none

/-- What a call says of one exact path: a servlet for it, or that there is none. -/
def Change.exact (uri : Bytes) (c : Change σ) : Option (Option (Option σ)) :=
  c.data.bind (OrdMap.changes id uri)

/-- The exact paths behind one change. -/
theorem m_data_change (d : ServletDispatch σ) (c : Change σ) :
    (d.change c).m_data = (c.data.map (OrdMap.change bytesLess d.m_data)).getD d.m_data := by
  cases c <;> rfl

/-- The default servlet behind one change. -/
theorem m_default_change (d : ServletDispatch σ) (c : Change σ) :
    (d.change c).m_default = c.default.getD d.m_default := by
  cases c <;> rfl

/-- The patterns behind one change. -/
theorem m_glob_change (d : ServletDispatch σ) (c : Change σ) :
    (d.change c).m_glob = (c.glob.map (register d.m_glob)).getD d.m_glob := by
  cases c <;> simp [change, Change.glob, register, dropKey, addServlet, delServlet, addGlobServlet,
    delGlobServlet, setDefault]

/-- The exact paths are a map: those a history leaves are what its changes of the map make of them. -/
theorem m_data_foldl (h : List (Change σ)) (d : ServletDispatch σ) :
    (h.foldl change d).m_data = (h.filterMap Change.data).foldl (OrdMap.change bytesLess) d.m_data := by
  induction h generalizing d with
  | nil => rfl
  | cons c h ih =>
    rw [List.foldl_cons, ih, m_data_change]
    cases hc : c.data <;> simp [hc]

/-- The patterns are registrations: those a history leaves are its live ones. -/
theorem m_glob_foldl (h : List (Change σ)) (d : ServletDispatch σ) :
    (h.foldl change d).m_glob = (h.filterMap Change.glob).foldl register d.m_glob := by
  induction h generalizing d with
  | nil => rfl
  | cons c h ih =>
    rw [List.foldl_cons, ih, m_glob_change]
    cases hc : c.glob <;> simp [hc]

/-- What the exact paths have for a path: the last word on it. -/
theorem find_m_data_foldl (notFound : σ) (h : List (Change σ)) (uri : Bytes) :
    OrdMap.find bytesLess uri (h.foldl change (.new notFound)).m_data =
      (latest (Change.exact uri) h).getD none := by
  rw [m_data_foldl, OrdMap.find_foldl_change bytesLess_keyed, latest, List.filterMap_filterMap]
  rfl

/-- The patterns that a history leaves are its live registrations. -/
theorem m_glob_new (notFound : σ) (h : List (Change σ)) :
    (h.foldl change (.new notFound)).m_glob = live (h.filterMap Change.glob) := by
  rw [m_glob_foldl, show (new notFound).m_glob = [] from rfl, foldl_register]

/-! ### The answer for a path -/

/-- `getServlet` answers with the last word on the exact path. -/
theorem getServlet_of_changes (notFound : σ) (h : List (Change σ)) (uri : Bytes) :
    (h.foldl change (.new notFound)).getServlet uri = ((latest (Change.exact uri) h).getD none).join := by
  rw [getServlet, find_m_data_foldl]
  rcases latest (Change.exact uri) h with _ | (_ | servlet) <;> rfl

/-- `getGlobServlet` answers with the last word on the pattern. -/
theorem getGlobServlet_of_changes (notFound : σ) (h : List (Change σ)) (uri : Bytes) :
    (h.foldl change (.new notFound)).getGlobServlet uri =
      (latest (OrdMap.changes id uri) (h.filterMap Change.glob)).join.join := by
  rw [getGlobServlet, m_glob_new]
  cases hfind : (live (h.filterMap Change.glob)).find? fun glob => glob.1 = uri with
  | some glob =>
    have hkey : glob.1 = uri := by simpa using List.find?_some hfind
    have hlive : (uri, glob.2) ∈ live (h.filterMap Change.glob) := hkey ▸ List.mem_of_find?_eq_some hfind
    rw [mem_live_iff.mp hlive]
    rfl
  | none =>
    rcases hlast : latest (OrdMap.changes id uri) (h.filterMap Change.glob) with _ | (_ | servlet)
    · rfl
    · rfl
    · have hnone := List.find?_eq_none.mp hfind (uri, servlet) (mem_live_iff.mpr hlast)
      simp at hnone

/-- **Which servlet a path gets**, after whatever calls: the servlet last added for exactly this path,
unless it was deleted since; else the servlet of the pattern that matches and was registered longest
ago, of those still registered; else the default that was set last. -/
theorem getMatchedServlet_of_changes (fnmatch : Bytes → Bytes → Bool) (notFound : σ) (h : List (Change σ))
    (uri : Bytes) :
    (h.foldl change (.new notFound)).getMatchedServlet fnmatch uri =
      match latest (Change.exact uri) h with
      | some (some servlet) => servlet
      | _ =>
        match (live (h.filterMap Change.glob)).find? fun glob => fnmatch (cstr glob.1) (cstr uri) with
        | some glob => glob.2
        | none => (latest Change.default h).getD (some notFound) := by
  have hdefault : (h.foldl change (.new notFound)).m_default = (latest Change.default h).getD (some notFound) :=
    foldl_assign (g := m_default) m_default_change h _
  rw [getMatchedServlet, find_m_data_foldl, hdefault, m_glob_new]
  rcases latest (Change.exact uri) h with _ | (_ | servlet) <;> rfl

end ServletDispatch

end Http
end Wuchat
