/-
# Reading accessors

`http.h` and `http.cpp`: the accessors of `HttpRequest` that read headers,
parameters and cookies, the conversions `checkGetAs` and `getAs` under the typed
ones, and the runs of calls on one request.

Parameters and cookies are parsed on demand.  Every accessor but one runs the
initialisers of the map it reads, which settle that map for good
(`parsed_call`), so its answer is the same after any calls.  `getCookieAs` does
not call `initCookies`: `call_iff` says when its answer depends on a call before
it.
-/

import Wuchat.Http.Params

namespace Wuchat
namespace Http

open Foundation

/-- `checkGetAs<T>(m, key, val, def)`: the result and `val`; `cast` is `boost::lexical_cast<T>`,
`none` where it throws. -/
def checkGetAs {T : Type} (cast : Bytes → Option T) (m : MapType) (key : Bytes) (dflt : T) : Bool × T :=
  match m.find key with
  | none => (false, dflt)
  | some s =>
    match cast s with
    | some v => (true, v)
    | none => (false, dflt)

/-- `getAs<T>(m, key, def)`. -/
def getAs {T : Type} (cast : Bytes → Option T) (m : MapType) (key : Bytes) (dflt : T) : T :=
  match m.find key with
  | none => dflt
  | some s => (cast s).getD dflt

/-- The answer of `hasParam` and `hasCookie`, and what is in `*val` after; without `val` only the
answer. -/
def hasAs (m : MapType) (key : Bytes) (val : Option Bytes) : Bool × Option Bytes :=
  match m.find key with
  | none => (false, val)
  | some s => (true, val.map fun _ => s)

namespace HttpRequest

/-- `getCookie(key, def = "")`, and the request it leaves. -/
def getCookie (r : HttpRequest) (key : Bytes) (dflt : Bytes := []) : Bytes × HttpRequest :=
  let r := r.initCookies
  ((r.cookies.find key).getD dflt, r)

/-- `hasParam(key, val = nullptr)`, and the request it leaves. -/
def hasParam (r : HttpRequest) (key : Bytes) (val : Option Bytes := none) : (Bool × Option Bytes) × HttpRequest :=
  let r := r.initQueryParam.initBodyParam
  (hasAs r.params key val, r)

/-- `hasCookie(key, val = nullptr)`, and the request it leaves. -/
def hasCookie (r : HttpRequest) (key : Bytes) (val : Option Bytes := none) : (Bool × Option Bytes) × HttpRequest :=
  let r := r.initCookies
  (hasAs r.cookies key val, r)

section Typed

variable {T : Type} (cast : Bytes → Option T)

/-- `checkGetParamAs<T>(key, val, def)`, and the request it leaves. -/
def checkGetParamAs (r : HttpRequest) (key : Bytes) (dflt : T) : (Bool × T) × HttpRequest :=
  let r := r.initQueryParam.initBodyParam
  (checkGetAs cast r.params key dflt, r)

/-- `getParamAs<T>(key, def)`, and the request it leaves. -/
def getParamAs (r : HttpRequest) (key : Bytes) (dflt : T) : T × HttpRequest :=
  let r := r.initQueryParam.initBodyParam
  (getAs cast r.params key dflt, r)

/-- `checkGetCookieAs<T>(key, val, def)`, and the request it leaves. -/
def checkGetCookieAs (r : HttpRequest) (key : Bytes) (dflt : T) : (Bool × T) × HttpRequest :=
  let r := r.initCookies
  (checkGetAs cast r.cookies key dflt, r)

/-- `getCookieAs<T>(key, def)`, and the request it leaves. -/
def getCookieAs (r : HttpRequest) (key : Bytes) (dflt : T) : T × HttpRequest :=
  -- no `initCookies()` here
  (getAs cast r.cookies key dflt, r)

end Typed

end HttpRequest

/-- A call of a reading accessor, by the type of its result. -/
inductive Accessor : Type → Type 1
  | getHeader (key dflt : Bytes) : Accessor Bytes
  | getParam (key dflt : Bytes) : Accessor Bytes
  | getCookie (key dflt : Bytes) : Accessor Bytes
  | hasParam (key : Bytes) (val : Option Bytes) : Accessor (Bool × Option Bytes)
  | hasCookie (key : Bytes) (val : Option Bytes) : Accessor (Bool × Option Bytes)
  | checkGetParamAs {T : Type} (cast : Bytes → Option T) (key : Bytes) (dflt : T) : Accessor (Bool × T)
  | getParamAs {T : Type} (cast : Bytes → Option T) (key : Bytes) (dflt : T) : Accessor T
  | checkGetCookieAs {T : Type} (cast : Bytes → Option T) (key : Bytes) (dflt : T) : Accessor (Bool × T)
  | getCookieAs {T : Type} (cast : Bytes → Option T) (key : Bytes) (dflt : T) : Accessor T

/-- The result of a call and the request it leaves. -/
def Accessor.call {α : Type} (r : HttpRequest) : Accessor α → α × HttpRequest
  | .getHeader key dflt => (r.getHeader key dflt, r)
  | .getParam key dflt => r.getParam key dflt
  | .getCookie key dflt => r.getCookie key dflt
  | .hasParam key val => r.hasParam key val
  | .hasCookie key val => r.hasCookie key val
  | .checkGetParamAs cast key dflt => r.checkGetParamAs cast key dflt
  | .getParamAs cast key dflt => r.getParamAs cast key dflt
  | .checkGetCookieAs cast key dflt => r.checkGetCookieAs cast key dflt
  | .getCookieAs cast key dflt => r.getCookieAs cast key dflt

/-- The request after a sequence of calls. -/
def runCalls (r : HttpRequest) (calls : List (Σ α : Type, Accessor α)) : HttpRequest :=
  calls.foldl (fun r a => (a.2.call r).2) r

/-! ## What an initialiser settles -/

/-- A bit that was set reads as set. -/
theorem or_and_ne_zero (n : Nat) {b : Nat} (hb : b ≠ 0) : (n ||| b) &&& b ≠ 0 := by
  rw [Nat.and_or_distrib_right, Nat.and_self]
  exact fun h => hb (Nat.or_eq_zero_iff.mp h).2

/-- Setting one bit leaves another. -/
theorem or_and_of_disjoint (n : Nat) {b c : Nat} (h : c &&& b = 0) : (n ||| c) &&& b = n &&& b := by
  rw [Nat.and_or_distrib_right, h, Nat.or_zero]

namespace HttpRequest

/-- A query that was read is not read again. -/
theorem initQueryParam_of_set {r : HttpRequest} (h : r.status &&& 1 ≠ 0) : r.initQueryParam = r := if_pos h

/-- Nor is a body. -/
theorem initBodyParam_of_set {r : HttpRequest} (h : r.status &&& 2 ≠ 0) : r.initBodyParam = r := if_pos h

/-- Nor are cookies. -/
theorem initCookies_of_set {r : HttpRequest} (h : r.status &&& 4 ≠ 0) : r.initCookies = r := if_pos h

/-- What `initQueryParam` changes. -/
theorem initQueryParam_spec (r : HttpRequest) :
    ∃ params status, r.initQueryParam = { r with params := params, status := status } ∧
      status &&& 1 ≠ 0 ∧ status &&& 2 = r.status &&& 2 ∧ status &&& 4 = r.status &&& 4 := by
  by_cases h : r.status &&& 1 = 0
  · exact ⟨_, _, initQueryParam_of_unset h, or_and_ne_zero _ (by decide), or_and_of_disjoint _ (by decide),
      or_and_of_disjoint _ (by decide)⟩
  · exact ⟨r.params, r.status, initQueryParam_of_set h, h, rfl, rfl⟩

/-- What `initBodyParam` changes. -/
theorem initBodyParam_spec (r : HttpRequest) :
    ∃ params status, r.initBodyParam = { r with params := params, status := status } ∧
      status &&& 1 = r.status &&& 1 ∧ status &&& 2 ≠ 0 ∧ status &&& 4 = r.status &&& 4 := by
  by_cases h : r.status &&& 2 = 0
  · exact ⟨_, _, initBodyParam_of_unset h, or_and_of_disjoint _ (by decide), or_and_ne_zero _ (by decide),
      or_and_of_disjoint _ (by decide)⟩
  · exact ⟨r.params, r.status, initBodyParam_of_set h, rfl, h, rfl⟩

/-- What the two initialisers of the parameters change. -/
theorem initParams_spec (r : HttpRequest) :
    ∃ params status, r.initQueryParam.initBodyParam = { r with params := params, status := status } ∧
      status &&& 1 ≠ 0 ∧ status &&& 2 ≠ 0 ∧ status &&& 4 = r.status &&& 4 := by
  obtain ⟨params, status, hquery, h1, -, h4⟩ := initQueryParam_spec r
  obtain ⟨params', status', hbody, h1', h2', h4'⟩ := initBodyParam_spec r.initQueryParam
  rw [hquery] at hbody h1' h4' ⊢
  exact ⟨params', status', hbody, h1' ▸ h1, h2', h4'.trans h4⟩

/-- What `initCookies` changes. -/
theorem initCookies_spec (r : HttpRequest) :
    ∃ cookies status, r.initCookies = { r with cookies := cookies, status := status } ∧
      status &&& 1 = r.status &&& 1 ∧ status &&& 2 = r.status &&& 2 ∧ status &&& 4 ≠ 0 := by
  by_cases h : r.status &&& 4 = 0
  · exact ⟨_, _, initCookies_of_unset h, or_and_of_disjoint _ (by decide), or_and_of_disjoint _ (by decide),
      or_and_ne_zero _ (by decide)⟩
  · exact ⟨r.cookies, r.status, initCookies_of_set h, rfl, rfl, h⟩

/-- `initQueryParam` reads neither the cookies nor the other bits. -/
theorem initQueryParam_congr (r : HttpRequest) (cookies : MapType) {status : Nat}
    (h1 : status &&& 1 = r.status &&& 1) (h2 : status &&& 2 = r.status &&& 2) :
    ∃ status', ({ r with cookies := cookies, status := status } : HttpRequest).initQueryParam =
        { r.initQueryParam with cookies := cookies, status := status' } ∧
      status' &&& 2 = r.initQueryParam.status &&& 2 := by
  by_cases h : r.status &&& 1 = 0
  · refine ⟨status ||| 1, ?_, ?_⟩
    · rw [initQueryParam_of_unset (h1.trans h), initQueryParam_of_unset h]
    · rw [initQueryParam_of_unset h, or_and_of_disjoint _ (by decide), or_and_of_disjoint _ (by decide), h2]
  · exact ⟨status, by rw [initQueryParam_of_set (h1 ▸ h), initQueryParam_of_set h],
      by rw [initQueryParam_of_set h, h2]⟩

/-- `initBodyParam` reads neither the cookies nor the other bits. -/
theorem initBodyParam_congr (r : HttpRequest) (cookies : MapType) {status : Nat}
    (h2 : status &&& 2 = r.status &&& 2) :
    ({ r with cookies := cookies, status := status } : HttpRequest).initBodyParam.params =
      r.initBodyParam.params := by
  by_cases h : r.status &&& 2 = 0
  · rw [initBodyParam_of_unset (h2.trans h), initBodyParam_of_unset h]
    rfl
  · rw [initBodyParam_of_set (h2 ▸ h), initBodyParam_of_set h]

/-- `initCookies` reads neither the parameters nor the other bits. -/
theorem initCookies_congr (r : HttpRequest) (params : MapType) {status : Nat}
    (h4 : status &&& 4 = r.status &&& 4) :
    ({ r with params := params, status := status } : HttpRequest).initCookies.cookies =
      r.initCookies.cookies := by
  by_cases h : r.status &&& 4 = 0
  · rw [initCookies_of_unset (h4.trans h), initCookies_of_unset h]
    rfl
  · rw [initCookies_of_set (h4 ▸ h), initCookies_of_set h]

end HttpRequest

/-! ## What every call leaves as it is -/

/-- A request with everything parsed: what an accessor can ask for. -/
structure Parsed where
  headers : MapType
  params : MapType
  cookies : MapType

/-- What a request parses to. -/
def HttpRequest.parsed (r : HttpRequest) : Parsed where
  headers := r.headers
  params := r.initQueryParam.initBodyParam.params
  cookies := r.initCookies.cookies

namespace HttpRequest

/-- Parsing the parameters changes nothing of what the request parses to. -/
theorem parsed_initParams (r : HttpRequest) : r.initQueryParam.initBodyParam.parsed = r.parsed := by
  obtain ⟨params, status, hr, h1, h2, h4⟩ := initParams_spec r
  have hset : ({ r with params := params, status := status } : HttpRequest).initQueryParam.initBodyParam =
      { r with params := params, status := status } := by
    rw [initQueryParam_of_set h1, initBodyParam_of_set h2]
  rw [parsed, parsed, hr, hset, initCookies_congr r params h4]

/-- Parsing the cookies changes nothing of what the request parses to. -/
theorem parsed_initCookies (r : HttpRequest) : r.initCookies.parsed = r.parsed := by
  obtain ⟨cookies, status, hr, h1, h2, h4⟩ := initCookies_spec r
  obtain ⟨status', hquery, h2'⟩ := initQueryParam_congr r cookies h1 h2
  rw [parsed, parsed, hr, initCookies_of_set h4, hquery, initBodyParam_congr _ cookies h2']

end HttpRequest

/-- **A call changes nothing of what the request parses to.** -/
theorem parsed_call {α : Type} (r : HttpRequest) (a : Accessor α) : (a.call r).2.parsed = r.parsed := by
  cases a with
  | getHeader | getCookieAs => rfl
  | getParam | hasParam | checkGetParamAs | getParamAs => exact r.parsed_initParams
  | getCookie | hasCookie | checkGetCookieAs => exact r.parsed_initCookies

/-- **No sequence of calls changes what the request parses to.** -/
theorem parsed_runCalls (r : HttpRequest) (calls : List (Σ α : Type, Accessor α)) :
    (runCalls r calls).parsed = r.parsed := by
  induction calls generalizing r with
  | nil => rfl
  | cons a calls ih => rw [runCalls, List.foldl_cons, ← runCalls, ih, parsed_call]

/-- The answer read off a parsed request; that of `getCookieAs` where it parses cookies like the
others. -/
def Accessor.answer {α : Type} (p : Parsed) : Accessor α → α
  | .getHeader key dflt => (p.headers.find key).getD dflt
  | .getParam key dflt => (p.params.find key).getD dflt
  | .getCookie key dflt => (p.cookies.find key).getD dflt
  | .hasParam key val => hasAs p.params key val
  | .hasCookie key val => hasAs p.cookies key val
  | .checkGetParamAs cast key dflt => checkGetAs cast p.params key dflt
  | .getParamAs cast key dflt => getAs cast p.params key dflt
  | .checkGetCookieAs cast key dflt => checkGetAs cast p.cookies key dflt
  | .getCookieAs cast key dflt => getAs cast p.cookies key dflt

/-- The cookies `getCookieAs` reads answer it as the parsed ones do: they were parsed before, or
they hold its key already, or the first cookie of that name does not convert to anything but the
default. -/
def Accessor.CookiesRead {α : Type} (r : HttpRequest) : Accessor α → Prop
  | .getCookieAs cast key dflt =>
    r.status &&& 4 ≠ 0 ∨ (r.cookies.find key).isSome ∨
      ∀ s, firstValue key (paramInserts (r.getHeader (str "cookie")) 59 Trim) = some s → (cast s).getD dflt = dflt
  | _ => True

/-- **A call answers what is read off the parsed request exactly when the cookies it needs are
read.** -/
theorem call_eq_answer_iff {α : Type} (r : HttpRequest) (a : Accessor α) :
    (a.call r).1 = a.answer r.parsed ↔ a.CookiesRead r := by
  cases a with
  | getHeader | getParam | getCookie | hasParam | hasCookie | checkGetParamAs | getParamAs | checkGetCookieAs =>
    exact iff_of_true rfl trivial
  | getCookieAs cast key dflt =>
    change getAs cast r.cookies key dflt = getAs cast r.initCookies.cookies key dflt ↔ _
    rw [Accessor.CookiesRead]
    by_cases h4 : r.status &&& 4 = 0
    · rw [HttpRequest.initCookies_of_unset h4, PARSE_PARAM_eq, getAs, getAs, find_foldl_insert,
        or_iff_right (not_not.mpr h4)]
      cases r.cookies.find key with
      | some s => exact iff_of_true rfl (.inl rfl)
      | none =>
        rw [Option.none_or, Option.isSome_none, or_iff_right Bool.false_ne_true]
        cases firstValue key (paramInserts (r.getHeader (str "cookie")) 59 Trim) with
        | none => exact iff_of_true rfl nofun
        | some s => exact ⟨fun h _ hs => Option.some.inj hs ▸ h.symm, fun h => (h s rfl).symm⟩
    · rw [HttpRequest.initCookies_of_set h4]
      exact iff_of_true rfl (.inl h4)

/-- Once read, the cookies stay read. -/
theorem cookiesRead_call {α β : Type} {r : HttpRequest} {a : Accessor α} (h : a.CookiesRead r) (b : Accessor β) :
    a.CookiesRead (b.call r).2 := by
  cases a with
  | getHeader | getParam | getCookie | hasParam | hasCookie | checkGetParamAs | getParamAs | checkGetCookieAs =>
    trivial
  | getCookieAs cast key dflt =>
    have hparams : Accessor.CookiesRead r.initQueryParam.initBodyParam (.getCookieAs cast key dflt) := by
      obtain ⟨params, status, hr, -, -, h4⟩ := r.initParams_spec
      rw [hr]
      rw [Accessor.CookiesRead] at h ⊢
      rw [h4]
      exact h
    have hcookies : Accessor.CookiesRead r.initCookies (.getCookieAs cast key dflt) := by
      obtain ⟨cookies, status, hr, -, -, h4⟩ := r.initCookies_spec
      rw [hr]
      exact .inl h4
    cases b with
    | getHeader | getCookieAs => exact h
    | getParam | hasParam | checkGetParamAs | getParamAs => exact hparams
    | getCookie | hasCookie | checkGetCookieAs => exact hcookies

/-- Cookies that were read stay so. -/
theorem cookiesRead_runCalls {α : Type} {r : HttpRequest} {a : Accessor α} (h : a.CookiesRead r)
    (calls : List (Σ β : Type, Accessor β)) : a.CookiesRead (runCalls r calls) := by
  induction calls generalizing r with
  | nil => exact h
  | cons b calls ih => exact ih (cookiesRead_call h b.2)

/-- **The calls before a call are unobservable exactly when the cookies it needs are read.** -/
theorem call_iff {α : Type} (r : HttpRequest) (a : Accessor α) :
    (∀ before before', (a.call (runCalls r before)).1 = (a.call (runCalls r before')).1) ↔ a.CookiesRead r := by
  constructor
  · intro h
    have hfirst := h [] [⟨_, .getCookie [] []⟩]
    rw [← call_eq_answer_iff]
    cases a with
    | getHeader | getParam | getCookie | hasParam | hasCookie | checkGetParamAs | getParamAs | checkGetCookieAs =>
      rfl
    | getCookieAs cast key dflt => exact hfirst
  · intro h before before'
    have hanswer : ∀ calls, (a.call (runCalls r calls)).1 = a.answer r.parsed := by
      intro calls
      rw [(call_eq_answer_iff _ a).mpr (cookiesRead_runCalls h calls), parsed_runCalls]
    rw [hanswer, hanswer]

/-- A request with the cookie `a=5`. -/
def cookieRequest : HttpRequest := HttpRequest.new.setHeader (str "Cookie") (str "a=5")

/-- `getCookieAs<int>("a")` gives `0` on a fresh request and `5` after `getCookie("a")`. -/
theorem getCookieAs_depends :
    ¬ ∀ before before' : List (Σ α : Type, Accessor α),
      (Accessor.call (runCalls cookieRequest before) (.getCookieAs lexicalCastInt (str "a") 0)).1 =
        (Accessor.call (runCalls cookieRequest before') (.getCookieAs lexicalCastInt (str "a") 0)).1 := by
  have hfresh : (Accessor.call (runCalls cookieRequest []) (.getCookieAs lexicalCastInt (str "a") 0)).1 = 0 := by
    decide
  have hparsed : (Accessor.call (runCalls cookieRequest [⟨_, .getCookie (str "a") []⟩])
      (.getCookieAs lexicalCastInt (str "a") 0)).1 = 5 := by
    decide
  intro h
  exact absurd (hfresh.symm.trans ((h _ _).trans hparsed)) (by decide)

end Http
end Wuchat
