/-
# Files for the browser

`resource_servlet.cpp`: `ResourceServlet::handle` joins the directory of the servlet and the path
of the request, refuses a path in which `..` occurs anywhere, opens the file and copies it line by
line into the body.

What is opened stays below the directory (`opened_below`): a path without `..` only goes down
(`Foundation.Paths`).  The line loop puts an end behind every line, also behind a last line that
has none in the file (`readLines_eq`), so the body is the file if and only if the file is empty or
ends with one (`body_eq_content_iff`).
-/

import Wuchat.Foundation.Paths
import Wuchat.Http.Message

namespace Wuchat
namespace Http

open Foundation

/-- `ResourceServlet`. -/
structure ResourceServlet where
  m_path : Bytes
  deriving DecidableEq, Repr

/-- `std::getline(ifs, line)` on what is left of the stream: the line and what is left then; `none` when it
fails. -/
def getline : Bytes → Option (Bytes × Bytes)
  | [] => none
  | c :: s => some ((c :: s).takeWhile (· ≠ 10), ((c :: s).dropWhile (· ≠ 10)).drop 1)

/-- A line takes something from the stream. -/
theorem getline_length_lt {ifs line rest : Bytes} (h : getline ifs = some (line, rest)) :
    rest.length < ifs.length := by
  cases ifs with
  | nil => cases h
  | cons c s =>
    obtain ⟨-, rfl⟩ := Prod.mk.inj (Option.some.inj h)
    have hle := (List.dropWhile_suffix (p := fun x : UInt8 => decide (x ≠ 10)) (l := c :: s)).length_le
    rw [List.length_drop]
    rw [List.length_cons] at hle ⊢
    omega

/-- `while (std::getline(ifs, line)) ss << line << std::endl;` -/
def readLines (ss ifs : Bytes) : Bytes :=
  match h : getline ifs with
  | none => ss
  | some (line, rest) => readLines (ss ++ line ++ [10]) rest
  termination_by ifs.length
  decreasing_by exact getline_length_lt h

/-- What `handle` returns and does: the path it opens, if it comes to that, and the response. -/
structure Handled where
  opened : Option Bytes
  response : HttpResponse
  result : Int
  deriving DecidableEq, Repr

/-- `ResourceServlet::handle(request, response, session)`; `files` are the contents of the files that can be
opened. -/
def ResourceServlet.handle (t : ResourceServlet) (files : Bytes → Option Bytes) (request : HttpRequest)
    (response : HttpResponse) : Handled :=
  let path := t.m_path ++ str "/" ++ request.path
  if find (str "..") path ≠ none then
    ⟨none, { response with body := str "invalid path", status := 404 }, 0⟩
  else
    -- the name of a file ends at a NUL
    match files (cstr path) with
    | none => ⟨some (cstr path), { response with body := str "invalid file", status := 404 }, 0⟩
    | some ifs =>
      let response := { response with body := readLines [] ifs }
      ⟨some (cstr path), response.setHeader (str "content-type") (str "text/html;charset=utf-8"), 0⟩

/-! ### Below the directory -/

variable {t : ResourceServlet} {files : Bytes → Option Bytes} {request : HttpRequest} {response : HttpResponse}
  {p ifs : Bytes}

/-- A path that is opened has no `..` in it. -/
theorem opened_eq (h : (t.handle files request response).opened = some p) :
    ¬ str ".." <:+: t.m_path ++ str "/" ++ request.path ∧ p = cstr (t.m_path ++ str "/" ++ request.path) := by
  rw [ResourceServlet.handle] at h
  dsimp only at h
  split at h
  · cases h
  · rename_i hfind
    refine ⟨find_eq_none_iff.mp (Classical.not_not.mp hfind), ?_⟩
    split at h
    · exact (Option.some.inj h).symm
    · exact (Option.some.inj h).symm

/-- What C sees of a string is its beginning. -/
theorem cstr_isPrefix (s : Bytes) : cstr s <+: s := List.takeWhile_prefix _

/-- The name of a file in a directory: the directory alone, if that has a NUL in it. -/
theorem cstr_join (dir path : Bytes) : cstr (dir ++ 47 :: path) = cstr dir ∨
    cstr (dir ++ 47 :: path) = cstr dir ++ 47 :: cstr path := by
  induction dir with
  | nil =>
    rw [List.nil_append, cstr_cons, if_neg (by decide)]
    exact .inr rfl
  | cons c dir ih =>
    rw [List.cons_append, cstr_cons, cstr_cons]
    by_cases hc : c = 0
    · rw [if_pos hc, if_pos hc]
      exact .inl rfl
    · rw [if_neg hc, if_neg hc]
      exact ih.imp (congrArg (c :: ·)) (congrArg (c :: ·))

/-- **What is opened is below the directory**, whatever the path of the request is: the normal form of what is
opened begins with that of the directory, and both are taken from the root or both are not. -/
theorem opened_below (t : ResourceServlet) (files : Bytes → Option Bytes) (request : HttpRequest)
    (response : HttpResponse) {p : Bytes} (h : (t.handle files request response).opened = some p) :
    normal (cstr t.m_path) <+: normal p ∧ (cstr t.m_path ≠ [] → p.head? = (cstr t.m_path).head?) := by
  obtain ⟨hdots, rfl⟩ := opened_eq h
  have hjoin : t.m_path ++ str "/" ++ request.path = t.m_path ++ 47 :: request.path := List.append_assoc ..
  rw [hjoin] at hdots ⊢
  rcases cstr_join t.m_path request.path with heq | heq
  · rw [heq]
    exact ⟨List.prefix_rfl, fun _ => rfl⟩
  · have hdown : str ".." ∉ components (cstr request.path) := by
      intro hmem
      have hin := (infix_of_mem_components hmem).trans (cstr_isPrefix request.path).isInfix
      exact hdots (hin.trans ((List.suffix_cons 47 request.path).trans (List.suffix_append t.m_path _)).isInfix)
    rw [heq]
    refine ⟨normal_prefix_append _ hdown, fun hne => ?_⟩
    exact List.head?_append_of_ne_nil _ hne

/-- The statement at a path with a dot and an empty component. -/
theorem opened_below_index : normal (cstr (str "/srv/html")) <+: normal (str "/srv/html/./a//index") ∧
    (cstr (str "/srv/html") ≠ [] → (str "/srv/html/./a//index").head? = (cstr (str "/srv/html")).head?) :=
  opened_below ⟨str "/srv/html"⟩ (fun _ => none) { HttpRequest.new with path := str "./a//index" } .new
    (by decide)

/-! ### The body -/

/-- A text cut behind its first line. -/
theorem takeWhile_ne_append (s : Bytes) : (∃ rest, s = s.takeWhile (· ≠ 10) ++ 10 :: rest ∧
      (s.dropWhile (· ≠ 10)).drop 1 = rest) ∨ (s.takeWhile (· ≠ 10) = s ∧ 10 ∉ s) := by
  induction s with
  | nil => exact .inr ⟨rfl, List.not_mem_nil⟩
  | cons c s ih =>
    by_cases hc : c = 10
    · refine .inl ⟨s, ?_, ?_⟩
      · rw [hc, List.takeWhile_cons_of_neg (by decide), List.nil_append]
      · rw [hc, List.dropWhile_cons_of_neg (by decide), List.drop_one, List.tail_cons]
    · have htake : (c :: s).takeWhile (· ≠ 10) = c :: s.takeWhile (· ≠ 10) :=
        List.takeWhile_cons_of_pos (decide_eq_true hc)
      have hdrop : (c :: s).dropWhile (· ≠ 10) = s.dropWhile (· ≠ 10) :=
        List.dropWhile_cons_of_pos (decide_eq_true hc)
      rw [htake, hdrop]
      rcases ih with ⟨rest, heq, hrest⟩ | ⟨heq, hmem⟩
      · exact .inl ⟨rest, congrArg (c :: ·) heq, hrest⟩
      · exact .inr ⟨congrArg (c :: ·) heq, fun h => (List.mem_cons.mp h).elim (Ne.symm hc) hmem⟩

/-- The end the loop puts behind a last line that has none. -/
def lineEnd (s : Bytes) : Bytes := if s = [] ∨ s.getLast? = some 10 then [] else [10]

/-- **The loop copies the stream**, with an end behind the last line. -/
theorem readLines_eq (ss ifs : Bytes) : readLines ss ifs = ss ++ ifs ++ lineEnd ifs := by
  -- a line makes the stream shorter
  induction hn : ifs.length using Nat.strongRecOn generalizing ss ifs with
  | ind n ih =>
  subst hn
  cases ifs with
  | nil => rw [readLines, getline, lineEnd, if_pos (.inl rfl), List.append_nil, List.append_nil]
  | cons c s =>
    rw [readLines]
    split
    · rename_i hline
      cases hline
    rename_i line rest hline
    have hlt := getline_length_lt hline
    obtain ⟨rfl, rfl⟩ := Prod.mk.inj (Option.some.inj hline)
    rcases takeWhile_ne_append (c :: s) with ⟨rest, heq, hrest⟩ | ⟨heq, hmem⟩
    · rw [hrest] at hlt ⊢
      rw [ih _ hlt _ rest rfl]
      generalize (c :: s).takeWhile (· ≠ 10) = line at heq
      have hend : lineEnd (c :: s) = lineEnd rest := by
        rw [lineEnd, lineEnd, heq]
        cases rest with
        | nil => simp
        | cons x rest => simp [List.getLast?_append, List.getLast?_cons]
      rw [hend, heq]
      simp
    · have hnone : (c :: s).dropWhile (· ≠ 10) = [] := by
        have := List.takeWhile_append_dropWhile (p := fun x : UInt8 => decide (x ≠ 10)) (l := c :: s)
        rw [heq] at this
        exact List.append_right_eq_self.mp this
      have hend : lineEnd (c :: s) = [10] := by
        refine if_neg fun h => ?_
        rcases h with h | h
        · cases h
        · exact hmem (List.mem_of_getLast? h)
      rw [hnone, heq, hend, List.drop_nil, readLines, getline]

/-- The lines are the content when it ends with a line break. -/
theorem readLines_eq_self_iff : readLines [] ifs = ifs ↔ ifs = [] ∨ ifs.getLast? = some 10 := by
  rw [readLines_eq, List.nil_append, List.append_right_eq_self, lineEnd]
  split
  · rename_i h
    exact iff_of_true rfl h
  · rename_i h
    exact iff_of_false (List.cons_ne_nil _ _) h

/-- **The body is the file exactly if** the file is empty or ends with the end of a line. -/
theorem body_eq_content_iff (t : ResourceServlet) (files : Bytes → Option Bytes) (request : HttpRequest)
    (response : HttpResponse) {p ifs : Bytes} (hopen : (t.handle files request response).opened = some p)
    (hfile : files p = some ifs) :
    (t.handle files request response).response.body = ifs ↔ ifs = [] ∨ ifs.getLast? = some 10 := by
  obtain ⟨hdots, rfl⟩ := opened_eq hopen
  rw [← readLines_eq_self_iff, ResourceServlet.handle]
  dsimp only
  rw [if_neg (not_not_intro (find_eq_none_iff.mpr hdots)), hfile]
  rfl

/-- A directory with one file. -/
def oneFile (ifs p : Bytes) : Option Bytes := if p = str "/srv//a" then some ifs else none

/-- The request for it. -/
def oneRequest : HttpRequest := { HttpRequest.new with path := str "/a" }

/-- The statement at a file of one line. -/
theorem body_eq_content_iff_line :
    ((⟨str "/srv"⟩ : ResourceServlet).handle (oneFile (str "a\n")) oneRequest .new).response.body = str "a\n" ↔
      str "a\n" = [] ∨ (str "a\n").getLast? = some 10 :=
  body_eq_content_iff ⟨str "/srv"⟩ _ _ _ (p := str "/srv//a") (by decide) (by decide)

/-- A file without an end behind its last line is sent with one. -/
theorem line_end_added :
    ((⟨str "/srv"⟩ : ResourceServlet).handle (oneFile (str "a")) oneRequest .new).opened = some (str "/srv//a") ∧
    oneFile (str "a") (str "/srv//a") = some (str "a") ∧
    ((⟨str "/srv"⟩ : ResourceServlet).handle (oneFile (str "a")) oneRequest .new).response.body = str "a\n" ∧
    str "a\n" ≠ str "a" := by
  refine ⟨by decide, by decide, ?_, by decide⟩
  have hloop : ((⟨str "/srv"⟩ : ResourceServlet).handle (oneFile (str "a")) oneRequest .new).response.body =
      readLines [] (str "a") := by decide +kernel
  rw [hloop, readLines_eq]
  decide

end Http
end Wuchat
