/-
# A server on one connection

`http/http_server.cpp`: `HttpServer::handleClient` receives a request, makes a response, lets the
matched servlet fill it in, sends it, and goes on with the next request as long as the
server keeps connections and the request does not close its own.  The results of the
servlet and of the send are not looked at.

A servlet gets the request, the response and the session, and may do anything with them
(`Servlet`).  For servlets that only fill in the two objects (`Computes`) a connection is
told by its requests alone: each is answered once and in order, up to the first that ends
the connection, and nothing is sent after that (`handleClient_answers`).
-/

import Wuchat.Http.Dispatch
import Wuchat.Http.Session
import Wuchat.Streams.Exact

namespace Wuchat
namespace Http

open Foundation HttpParsing Streams

/-! ### Servlets -/

/-- `handle(request, response, session)`: the result, and the two objects afterwards. -/
abbrev Servlet := HttpRequest → HttpResponse → Act (Int × HttpRequest × HttpResponse)

/-- `m_content` of a `ServletNotFound`. -/
def ServletNotFound.content (page : Bytes) : Bytes :=
  str "<html><head><title>404 Not Found</title></head><body><center><h1>404 Not Found</h1></center><hr><center>" ++
    page ++ str "</center></body></html>"

/-- What `ServletNotFound::handle` makes of the response. -/
def ServletNotFound.fill (page : Bytes) (response : HttpResponse) : HttpResponse :=
  { (({ response with status := 404 }).setHeader (str "Server") (str "luwu/1.0.0")).setHeader
      (str "Content-Type") (str "text/html") with body := ServletNotFound.content page }

/-- `ServletNotFound`. -/
def ServletNotFound (page : Bytes) : Servlet := fun request response =>
  pure (0, request, ServletNotFound.fill page response)

/-- `ServletDispatch::handle`: the matched servlet, or `-1` at a null pointer. -/
def ServletDispatch.handle (fnmatch : Bytes → Bytes → Bool) (d : ServletDispatch Servlet) : Servlet :=
  fun request response =>
    match d.getMatchedServlet fnmatch request.path with
    | some servlet => servlet request response
    | none => pure (-1, request, response)

/-- The servlet leaves the session alone and does `f` to the two objects. -/
def Computes (servlet : Servlet) (f : HttpRequest → HttpResponse → Int × HttpRequest × HttpResponse) : Prop :=
  ∀ request response l, servlet request response l = .ok (f request response) l

/-! ### Connections -/

/-- `HttpServer`: what `handleClient` uses of it. -/
structure HttpServer where
  m_keepalive : Bool
  m_name : Bytes
  m_dispatch : ServletDispatch Servlet

/-- The response that is made for a request, before the servlet sees it. -/
def HttpServer.response (server : HttpServer) (req : HttpRequest) : HttpResponse :=
  (HttpResponse.new req.version (req.close || !server.m_keepalive)).setHeader (str "Server") server.m_name

/-- The loop of `handleClient`, for as many turns as there is fuel. -/
def handleClientLoop (fnmatch : Bytes → Bytes → Bool) (server : HttpServer) (bufferSize : Nat) : Nat → Act Unit
  | 0 => fun _ => .hang
  | fuel + 1 => do
    match ← recvRequest bufferSize with
    | none => return ()
    | some req =>
      let (_, req, rsp) ← server.m_dispatch.handle fnmatch req (server.response req)
      let _ ← sendResponse rsp
      if !server.m_keepalive || req.close then return ()
      else handleClientLoop fnmatch server bufferSize fuel

/-- `HttpServer::handleClient(sock)`.  A request takes a byte at least. -/
def handleClient (fnmatch : Bytes → Bytes → Bool) (server : HttpServer) (bufferSize : Nat) : Act Unit := fun l =>
  (do
    handleClientLoop fnmatch server bufferSize (l.input.length + 1)
    Link.close : Act Unit) l

/-! ### What is read does not depend on what is written -/

/-- A read does not see what has been written. -/
theorem read_write {size : Nat} {l l' : Link} {data : Bytes} (h : Link.read size l = .ok (some data) l')
    (output : Bytes) (writes : List Io) :
    Link.read size { l with output := output, writes := writes } =
      .ok (some data) { l' with output := output, writes := writes } := by
  unfold Link.read at h ⊢
  dsimp only
  split at h
  · cases h
  · rename_i hopen
    rw [if_neg hopen]
    split at h <;> cases h <;> rfl

/-- A read touches neither what was written nor the flag. -/
theorem read_frame {size : Nat} {l l' : Link} {data : Bytes} (h : Link.read size l = .ok (some data) l') :
    l'.output = l.output ∧ l'.writes = l.writes ∧ l'.closed = false := by
  unfold Link.read at h
  split at h
  · cases h
  · rename_i hopen
    split at h <;> cases h <;> exact ⟨rfl, rfl, Bool.eq_false_iff.mpr hopen⟩

/-- So the cuts of the input are the same. -/
theorem Cuts.write {size : Nat} {l l' : Link} {pieces : List Bytes} (h : Cuts size l pieces l')
    (output : Bytes) (writes : List Io) :
    Cuts size { l with output := output, writes := writes } pieces { l' with output := output, writes := writes } := by
  induction h with
  | nil l => exact .nil _
  | cons hread hne _ ih => exact .cons (read_write hread output writes) hne ih

/-- The reads leave what was written. -/
theorem Cuts.frame {size : Nat} {l l' : Link} {pieces : List Bytes} (h : Cuts size l pieces l') :
    l'.output = l.output ∧ l'.writes = l.writes := by
  induction h with
  | nil => exact ⟨rfl, rfl⟩
  | cons hread _ _ ih =>
    obtain ⟨hout, hwrites, -⟩ := read_frame hread
    exact ⟨ih.1.trans hout, ih.2.trans hwrites⟩

/-- A connection that is read is open. -/
theorem Cuts.opened {size : Nat} {l l' : Link} {pieces : List Bytes} (h : Cuts size l pieces l')
    (hne : pieces ≠ []) : l'.closed = false := by
  induction h with
  | nil => exact (hne rfl).elim
  | @cons l l₁ l₂ data pieces hread _ hrest ih =>
    cases pieces with
    | nil =>
      cases hrest
      exact (read_frame hread).2.2
    | cons data' pieces => exact ih (List.cons_ne_nil _ _)

/-- A response is put on an open stream whose writes move, and nothing else happens there. -/
theorem sendResponse_ok {l : Link} {rsp : HttpResponse} (hopen : l.closed = false)
    (hwrites : ∀ io ∈ l.writes, io.Moves) (hlen : rsp.dump.length < sizeMod) :
    ∃ writes, sendResponse rsp l = .ok rsp.dump.length { l with output := l.output ++ rsp.dump, writes := writes } ∧
      ∀ io ∈ writes, io.Moves := by
  -- the reads of the stream play no part in a write
  obtain ⟨parts, writes, hw, hs, hmoves⟩ :=
    writeLoop_moves rsp.dump.length rsp.dump hwrites 0 rsp.dump.length (by omega) hlen
  refine ⟨writes, ?_, hmoves⟩
  rw [sendResponse, Link.writeFixSize, if_neg (by simp [hopen])]
  dsimp only
  rw [Streams.writeFixSize, hw]
  dsimp only
  rw [hs]
  rfl

/-- A read of nothing is the end of the loop of `recvRequest`. -/
theorem recvRequest_end {size : Nat} {l l' : Link} (h : Link.read size l = .ok (some []) l') :
    recvRequest size l = .ok none { l' with closed := true } := by
  have hread : Link.read (size - ([] : Bytes).length) l = .ok (some []) l' := h
  rw [recvRequest, recvRequestLoop, Act.bind_ok hread]
  rfl

/-! ### The answers on a connection -/

/-- What comes up to the first that does not go on, with it. -/
def served {α : Type} (goesOn : α → Bool) : List α → List α
  | [] => []
  | x :: xs => if goesOn x then x :: served goesOn xs else [x]

section Answers

variable {fnmatch : Bytes → Bytes → Bool} {server : HttpServer}
  {f : HttpRequest → HttpResponse → Int × HttpRequest × HttpResponse}

/-- The response to a request, as the servlets leave it. -/
def answer (server : HttpServer) (f : HttpRequest → HttpResponse → Int × HttpRequest × HttpResponse)
    (req : HttpRequest) : HttpResponse := (f req (server.response req)).2.2

/-- After this request the connection goes on. -/
def goesOn (server : HttpServer) (f : HttpRequest → HttpResponse → Int × HttpRequest × HttpResponse)
    (req : HttpRequest) : Bool := server.m_keepalive && !(f req (server.response req)).2.1.close

variable (hf : Computes (server.m_dispatch.handle fnmatch) f)
include hf

/-- **A turn of the loop**: one request is received and answered, and then the loop ends or goes on. -/
theorem handleClientLoop_turn {size fuel : Nat} {l l' : Link} {pieces : List Bytes} (hcuts : Cuts size l pieces l')
    (hclean : CleanCuts (http_parser_init .HTTP_REQUEST) pieces) (hreq : IsRequest pieces.flatten)
    (hwrites : ∀ io ∈ l.writes, io.Moves)
    (hlen : (answer server f (requestOf pieces.flatten)).dump.length < sizeMod) :
    ∃ writes, (∀ io ∈ writes, io.Moves) ∧ handleClientLoop fnmatch server size (fuel + 1) l =
      if goesOn server f (requestOf pieces.flatten) then handleClientLoop fnmatch server size fuel
        { l' with output := l.output ++ (answer server f (requestOf pieces.flatten)).dump, writes := writes }
      else .ok ()
        { l' with output := l.output ++ (answer server f (requestOf pieces.flatten)).dump, writes := writes } := by
  have hrecv := recvRequest_pieces hcuts hclean hreq
  have hpieces : pieces ≠ [] := by
    rintro rfl
    exact absurd hreq.finished (by decide)
  obtain ⟨hout, hw⟩ := hcuts.frame
  obtain ⟨writes, hsend, hmoves⟩ := sendResponse_ok (hcuts.opened hpieces) (hw ▸ hwrites) hlen
  refine ⟨writes, hmoves, ?_⟩
  rw [hout] at hsend
  have hcomputes := hf (requestOf pieces.flatten) (server.response (requestOf pieces.flatten)) l'
  unfold answer goesOn at *
  generalize f (requestOf pieces.flatten) (server.response (requestOf pieces.flatten)) = r at hcomputes hsend ⊢
  rw [handleClientLoop, Act.bind_ok hrecv]
  dsimp only
  rw [Act.bind_ok hcomputes, Act.bind_ok hsend]
  cases server.m_keepalive <;> cases r.2.1.close <;> rfl

/-- The loop on the requests of a connection, when the peer closes it after them. -/
theorem handleClientLoop_answers {size fuel : Nat} {requests : List (List Bytes)} {l l' l'' : Link}
    (hfuel : requests.length < fuel) (hcuts : Cuts size l requests.flatten l')
    (hclosed : Link.read size l' = .ok (some []) l'')
    (hclean : ∀ pieces ∈ requests, CleanCuts (http_parser_init .HTTP_REQUEST) pieces)
    (hreq : ∀ pieces ∈ requests, IsRequest pieces.flatten) (hwrites : ∀ io ∈ l.writes, io.Moves)
    (hlen : ∀ pieces ∈ requests, (answer server f (requestOf pieces.flatten)).dump.length < sizeMod) :
    ∃ l₂, handleClientLoop fnmatch server size fuel l = .ok () l₂ ∧
      l₂.output = l.output ++ (served (goesOn server f) (requests.map fun pieces => requestOf pieces.flatten)).flatMap
        fun req => (answer server f req).dump := by
  induction requests generalizing l l' l'' fuel with
  | nil =>
    cases hcuts
    obtain ⟨fuel, rfl⟩ := Nat.exists_eq_succ_of_ne_zero (Nat.ne_zero_of_lt hfuel)
    refine ⟨{ l'' with closed := true }, ?_, ?_⟩
    · rw [handleClientLoop, Act.bind_ok (recvRequest_end hclosed)]
      rfl
    · simp [served, (read_frame hclosed).1]
  | cons pieces requests ih =>
    obtain ⟨fuel, rfl⟩ := Nat.exists_eq_succ_of_ne_zero (Nat.ne_zero_of_lt hfuel)
    rw [List.flatten_cons] at hcuts
    obtain ⟨l₁, hfirst, hrest⟩ := hcuts.split
    obtain ⟨writes, hmoves, hturn⟩ := handleClientLoop_turn hf hfirst
      (hclean pieces List.mem_cons_self) (hreq pieces List.mem_cons_self) hwrites (hlen pieces List.mem_cons_self)
    rw [Nat.succ_eq_add_one, hturn, List.map_cons, served]
    split
    · have hrest_fuel : requests.length < fuel := Nat.lt_of_succ_lt_succ hfuel
      obtain ⟨l₂, hloop, hout⟩ := ih hrest_fuel
        (hrest.write (l.output ++ (answer server f (requestOf pieces.flatten)).dump) writes)
        (read_write hclosed _ _)
        (fun p hp => hclean p (List.mem_cons_of_mem _ hp)) (fun p hp => hreq p (List.mem_cons_of_mem _ hp)) hmoves
        fun p hp => hlen p (List.mem_cons_of_mem _ hp)
      refine ⟨l₂, hloop, ?_⟩
      rw [hout, List.flatMap_cons, List.append_assoc]
    · exact ⟨_, rfl, by simp⟩

end Answers

/-- Lists that are not empty are at most as many as their elements. -/
theorem length_le_flatten {α : Type} {xss : List (List α)} (h : ∀ xs ∈ xss, xs ≠ []) :
    xss.length ≤ xss.flatten.length := by
  induction xss with
  | nil => exact Nat.le_refl 0
  | cons xs xss ih =>
    obtain ⟨hxs, hrest⟩ := List.forall_mem_cons.mp h
    have := ih hrest
    have := List.length_pos_iff.mpr hxs
    rw [List.flatten_cons, List.length_append, List.length_cons]
    omega

/-- A server without servlets of its own. -/
theorem computes_notFound (fnmatch : Bytes → Bytes → Bool) (page : Bytes) :
    Computes ((ServletDispatch.new (ServletNotFound page)).handle fnmatch)
      fun request response => (0, request, ServletNotFound.fill page response) :=
  fun _ _ _ => rfl

/-- There are no more requests than bytes. -/
theorem requests_lt_fuel {size : Nat} {requests : List (List Bytes)} {l l' : Link}
    (hcuts : Cuts size l requests.flatten l') (hreq : ∀ pieces ∈ requests, IsRequest pieces.flatten) :
    requests.length < l.input.length + 1 := by
  have hpieces : requests.length ≤ requests.flatten.length := by
    refine length_le_flatten fun pieces hmem hnil => ?_
    have hfinished := (hreq pieces hmem).finished
    rw [hnil] at hfinished
    exact absurd hfinished (by decide)
  have hfuel := hcuts.length_le
  omega

/-- After the loop the session is closed. -/
theorem handleClient_of_loop {fnmatch : Bytes → Bytes → Bool} {server : HttpServer} {size : Nat} {l l₂ : Link}
    (h : handleClientLoop fnmatch server size (l.input.length + 1) l = .ok () l₂) :
    handleClient fnmatch server size l = .ok () { l₂ with closed := true } := by
  rw [handleClient, Act.bind_ok h]
  rfl

/-- **What a server sends on a connection**, in whatever reads the requests come: for every request
up to the first that ends the connection the answer of its servlet, in order and each once; then the
connection is closed. -/
theorem handleClient_answers {fnmatch : Bytes → Bytes → Bool} {server : HttpServer}
    {f : HttpRequest → HttpResponse → Int × HttpRequest × HttpResponse}
    (hf : Computes (server.m_dispatch.handle fnmatch) f) {size : Nat} {requests : List (List Bytes)}
    {l l' l'' : Link} (hcuts : Cuts size l requests.flatten l') (hclosed : Link.read size l' = .ok (some []) l'')
    (hclean : ∀ pieces ∈ requests, CleanCuts (http_parser_init .HTTP_REQUEST) pieces)
    (hreq : ∀ pieces ∈ requests, IsRequest pieces.flatten) (hwrites : ∀ io ∈ l.writes, io.Moves)
    (hlen : ∀ pieces ∈ requests, (answer server f (requestOf pieces.flatten)).dump.length < sizeMod) :
    ∃ l₂, handleClient fnmatch server size l = .ok () l₂ ∧ l₂.closed = true ∧
      l₂.output = l.output ++ (served (goesOn server f) (requests.map fun pieces => requestOf pieces.flatten)).flatMap
        fun req => (answer server f req).dump := by
  obtain ⟨l₂, hloop, hout⟩ := handleClientLoop_answers hf (requests_lt_fuel hcuts hreq) hcuts hclosed hclean hreq
    hwrites hlen
  exact ⟨{ l₂ with closed := true }, handleClient_of_loop hloop, rfl, hout⟩

/-- A request that keeps the connection, one that does not, and one too many, in four reads. -/
def threeRequests : List (List Bytes) :=
  [[str "GET /b HTTP/1.1\r\nConnection:", str " keep-alive\r\n\r\n"],
    [str "POST /a HTTP/1.1\r\nContent-Length: 2\r\n\r\nxy"], [str "GET /c HTTP/1.1\r\n\r\n"]]

/-- A stream that hands them out so. -/
def threeRequestsLink : Link where
  input := threeRequests.flatten.flatten
  reads := threeRequests.flatten.map fun data => .count data.length
  output := []
  writes := [.count 100]
  closed := false

/-- A server that keeps connections. -/
def emptyServer : HttpServer := ⟨true, str "luwu", .new (ServletNotFound (str "luwu/1.0.0"))⟩

/-- The statement at three requests on one connection. -/
theorem handleClient_answers_threeRequests :
    ∃ l₂, handleClient (· == ·) emptyServer 4096 threeRequestsLink = .ok () l₂ ∧ l₂.closed = true ∧
      l₂.output = [] ++ (served (goesOn emptyServer fun request response =>
          (0, request, ServletNotFound.fill (str "luwu/1.0.0") response))
        (threeRequests.map fun pieces => requestOf pieces.flatten)).flatMap fun req =>
          (answer emptyServer (fun request response =>
            (0, request, ServletNotFound.fill (str "luwu/1.0.0") response)) req).dump :=
  handleClient_answers (computes_notFound (· == ·) _)
    (cuts_pieces threeRequestsLink rfl (by decide)) rfl (by decide)
    (List.forall_mem_cons.mpr ⟨⟨by decide, by decide, by decide⟩,
      List.forall_mem_cons.mpr ⟨⟨by decide, by decide, by decide⟩,
        List.forall_mem_cons.mpr ⟨⟨by decide, by decide, by decide⟩, nofun⟩⟩⟩)
    (by decide) (by decide +kernel)

/-- The third request is not answered. -/
example : (served (goesOn emptyServer fun request response =>
      (0, request, ServletNotFound.fill (str "luwu/1.0.0") response))
    (threeRequests.map fun pieces => requestOf pieces.flatten)).length = 2 := by decide

end Http
end Wuchat
