/-
# Who owns a name

`m_sessions` should hold, under each name, the one open connection that is logged
in with it.  It does in every run whose steps meet two conditions (`Exclusive`): no
accepted handshake brings a `$id` header, and `sessionAdd(n)` runs only while no
other connection that has not left yet has `n` as its `$id`
(`names_exclusive`).

The code does not enforce the second.  `sessionExists` and `sessionAdd` are two
critical sections, so two logins can both find the name free
(`login_race`).  And `handle` deletes the entry of a connection whose frame does
not parse, while the connection keeps its `$id` until `onClose` deletes the name a
second time, whoever holds it by then.

The handshakes of these runs are ones that `handleShake` accepts: those whose `Connection` value
is cut between two reads, for instance `x` and `Upgrade`, since the parser then keeps the last part only.
-/

import Wuchat.Chat.Speakers

namespace Wuchat
namespace Chat

open Foundation Http Servlet

/-- The connection has not left: the `sessionDel` of its `onClose` has not run. -/
def Phase.Open : Phase → Prop
  | .closed => False
  | .call .leaving _ => False
  | _ => True

/-- Whether a connection is open can be computed. -/
instance : (ph : Phase) → Decidable ph.Open
  | .closed => .isFalse id
  | .call .leaving _ => .isFalse id
  | .call .onConnect _ => .isTrue trivial
  | .call .handle _ => .isTrue trivial
  | .call .onClose _ => .isTrue trivial
  | .recvMessage => .isTrue trivial

/-- The connection is open and has `n` as its `$id`. -/
def Conn.Claims (k : Conn) (n : Bytes) : Prop := k.phase.Open ∧ k.header.getHeader idKey = n

/-- Whether a connection claims a name can be computed. -/
instance (k : Conn) (n : Bytes) : Decidable (k.Claims n) := inferInstanceAs (Decidable (_ ∧ _))

/-- The name a connection is about to enter in the table. -/
def Phase.adding : Phase → Option Bytes
  | .call _ (.sessionAdd n _) => some n
  | _ => none

/-- A step that enters a name in the table runs while no other connection claims
the name. -/
def FreeName (s : Server) : Label → Prop
  | .act c _ _ => ∀ k ∈ s.conn c, ∀ n ∈ k.phase.adding, ∀ e ∈ s.conns, e.1 ≠ c → ¬e.2.Claims n
  | _ => True

/-- Whether a login's name is free can be computed. -/
instance (s : Server) : (l : Label) → Decidable (FreeName s l)
  | .act c _ _ => inferInstanceAs (Decidable (∀ k ∈ s.conn c, ∀ n ∈ k.phase.adding, ∀ e ∈ s.conns,
      e.1 ≠ c → ¬e.2.Claims n))
  | .accept _ _ => .isTrue trivial
  | .frame _ _ => .isTrue trivial
  | .eof _ => .isTrue trivial

/-- The conditions on a step under which names stay exclusive. -/
def Exclusive (s : Server) (l : Label) : Prop := NoIdHeader s l ∧ FreeName s l

/-- Whether a step is exclusive can be computed. -/
instance (s : Server) (l : Label) : Decidable (Exclusive s l) := inferInstanceAs (Decidable (_ ∧ _))

section Table

variable {reader : Reader} {s t : Server} {stage stage' : ConnId → Stage} {l : Label} {c d : ConnId}
  {n : Bytes}

/-- The table holds the connections whose own steps entered them, and a connection
that was dropped left its name free. -/
structure TableOk (s : Server) (stage : ConnId → Stage) : Prop where
  entry : ∀ n d, s.session n = some d ↔ (stage d).Holds n
  dropped : ∀ d n, stage d = .dropped n → s.session n = none

/-- A connection in one of these stages claims its name. -/
theorem LocalAt.claims {k? : Option Conn} {r : Record} {st : Stage} (h : LocalAt c k? r st)
    (hst : st.Holds n ∨ st = .dropped n) : ∃ k, k? = some k ∧ k.Claims n := by
  have hid : st.id = n := by
    rcases hst with (rfl | ⟨told, rfl⟩) | rfl <;> rfl
  cases k? with
  | none =>
    have hout := h.absent rfl
    rw [hout] at hst
    rcases hst with (hst | ⟨told, hst⟩) | hst <;> cases hst
  | some k =>
    refine ⟨k, rfl, ?_, (h.header k rfl).trans hid⟩
    have hph := h.phase k rfl
    obtain ⟨header, ph⟩ := k
    cases ph with
    | recvMessage => trivial
    | call m p =>
      obtain ⟨hm, -⟩ := hph
      rcases hst with (rfl | ⟨told, rfl⟩) | rfl
      · cases hm
        trivial
      · rcases hm with rfl | rfl <;> trivial
      · rcases hm with rfl | rfl <;> trivial
    | closed => rcases hst with (rfl | ⟨told, rfl⟩) | rfl <;> rcases hph with hph | ⟨_, _, hph⟩ <;> cases hph

/-- An open connection with a login and no unparsable frame since is a member. -/
theorem LocalAt.member {k? : Option Conn} {r : Record} {st : Stage} {k : Conn} {ok : Bool}
    (h : LocalAt c k? r st) (hk : k? = some k) (hopen : k.phase.Open)
    (hlogin : r.login = some (n, ok)) (hbroken : r.broken = false) : st = .member n ok := by
  have hst : st.login = some (n, ok) := h.login.symm.trans hlogin
  cases st with
  | out => cases hst
  | adding n' => cases hst
  | joined n' => cases hst
  | member n' told =>
    cases hst
    rfl
  | dropped n' =>
    rw [h.dropped n' rfl] at hbroken
    cases hbroken
  | gone n' told =>
    have hph := h.phase k hk
    obtain ⟨header, ph⟩ := k
    cases ph with
    | recvMessage => rcases hph with hph | ⟨_, _, hph⟩ <;> cases hph
    | call m p =>
      obtain ⟨rfl, -⟩ := hph
      exact hopen.elim
    | closed => exact hopen.elim

/-- A name about to be entered is held by no other connection. -/
theorem FreeName.not_claims {ok : Bool} {time : Bytes} {header : HttpRequest} {k : Servlet Int}
    {kd : Conn} (h : FreeName s (.act c ok time))
    (hc : s.conn c = some ⟨header, .call .handle (.sessionAdd n k)⟩) (hd : d ≠ c)
    (hkd : s.conn d = some kd) : ¬kd.Claims n := by
  obtain ⟨d', hmem, hd'⟩ := OrdMap.exists_mem_of_find connLess_keyed hkd
  obtain rfl : d = d' := hd'
  exact h _ hc n rfl (d, kd) hmem hd

/-- **Every step that meets the conditions keeps the table.** -/
theorem tableOk_step (hlocal : Local reader s stage) (h : TableOk s stage)
    (hfree : FreeName s l) (ht : TableStep s t stage stage' l) : TableOk t stage' := by
  have hclaim : ∀ d n, (stage d).Holds n ∨ stage d = .dropped n → ∃ k, s.conn d = some k ∧ k.Claims n :=
    fun d n hst => (hlocal d).claims hst
  cases ht with
  | same hs hin hdrop =>
    refine ⟨fun n d => ?_, fun d n hd => ?_⟩
    · rw [hin, ← h.entry, Server.session, hs, Server.session]
    · rw [Server.session, hs]
      exact h.dropped d n (hdrop d n hd)
  | add c n ok time header k hl hc hst hst' hne hs =>
    subst hl
    have hother : ∀ d, d ≠ c → ¬((stage d).Holds n ∨ stage d = .dropped n) := by
      intro d hd hholds
      obtain ⟨kd, hkd, hclaims⟩ := hclaim d n hholds
      exact hfree.not_claims hc hd hkd hclaims
    refine ⟨fun n' d => ?_, fun d n' hd' => ?_⟩
    · rw [Server.session, hs]
      rcases eq_or_ne n' n with rfl | hn
      · rw [OrdMap.find_set_self bytesLess_keyed rfl]
        rcases eq_or_ne d c with rfl | hd
        · simp [hst', Stage.Holds]
        · rw [hne d hd]
          exact ⟨fun he => absurd (Option.some.inj he).symm hd, fun he => absurd (Or.inl he) (hother d hd)⟩
      · rw [OrdMap.find_set_of_ne bytesLess_keyed hn]
        refine (h.entry n' d).trans ?_
        rcases eq_or_ne d c with rfl | hd
        · simp [hst, hst', Stage.Holds, Ne.symm hn]
        · rw [hne d hd]
    · rcases eq_or_ne d c with rfl | hd
      · rw [hst'] at hd'
        cases hd'
      · rw [hne d hd] at hd'
        have hn : n' ≠ n := by
          rintro rfl
          exact hother d hd (Or.inr hd')
        rw [Server.session, hs, OrdMap.find_set_of_ne bytesLess_keyed hn]
        exact h.dropped d n' hd'
  | del c n ok time _ hst hst' hne hs =>
    -- the name is the entry of `c` or of nobody
    have hother : ∀ d, d ≠ c → ¬(stage d).Holds n := by
      intro d hd hholds
      have hentry := (h.entry n d).2 hholds
      rcases hst with ⟨told, hst⟩ | hst
      · have hown := (h.entry n c).2 (Or.inr ⟨told, hst⟩)
        rw [hown] at hentry
        exact hd (Option.some.inj hentry).symm
      · rw [h.dropped c n hst] at hentry
        cases hentry
    have hgone : ∀ n', ¬(stage' c).Holds n' := by
      intro n'
      rcases hst' with hst' | ⟨told, hst'⟩ <;> simp [hst', Stage.Holds]
    refine ⟨fun n' d => ?_, fun d n' hd' => ?_⟩
    · rw [Server.session, hs]
      rcases eq_or_ne n' n with rfl | hn
      · rw [OrdMap.find_erase_self bytesLess_keyed rfl]
        rcases eq_or_ne d c with rfl | hd
        · exact ⟨by rintro ⟨⟩, fun he => absurd he (hgone _)⟩
        · rw [hne d hd]
          exact ⟨by rintro ⟨⟩, fun he => absurd he (hother d hd)⟩
      · rw [OrdMap.find_erase_of_ne bytesLess_keyed hn]
        refine (h.entry n' d).trans ?_
        rcases eq_or_ne d c with rfl | hd
        · have hnot : ¬(stage d).Holds n' := by
            rcases hst with ⟨told, hst⟩ | hst <;> simp [hst, Stage.Holds, Ne.symm hn]
          exact ⟨fun he => absurd he hnot, fun he => absurd he (hgone _)⟩
        · rw [hne d hd]
    · rw [Server.session, hs]
      rcases eq_or_ne n' n with rfl | hn
      · exact OrdMap.find_erase_self bytesLess_keyed rfl _
      · rw [OrdMap.find_erase_of_ne bytesLess_keyed hn]
        rcases eq_or_ne d c with rfl | hd
        · rcases hst' with hst' | ⟨told, hst'⟩
          · rw [hst'] at hd'
            cases hd'
            exact absurd rfl hn
          · rw [hst'] at hd'
            cases hd'
        · exact h.dropped d n' (by rwa [hne d hd] at hd')

/-- A step of another connection leaves what a connection holds. -/
theorem TableStep.holds (ht : TableStep s t stage stage' l) (hother : ∀ ok time, l ≠ .act d ok time)
    (h : (stage d).Holds n) : (stage' d).Holds n := by
  cases ht with
  | same _ hin _ => exact (hin d n).2 h
  | add c n' ok time header k hl _ _ _ hne _ =>
    have hd : d ≠ c := by
      rintro rfl
      exact hother ok time hl
    rwa [hne d hd]
  | del c n' ok time hl _ _ hne _ =>
    have hd : d ≠ c := by
      rintro rfl
      exact hother ok time hl
    rwa [hne d hd]

/-- **In every run whose steps meet the conditions, the table agrees with the
logins.** -/
theorem run_tableOk {ls : List Label} (h : (server reader).Run Exclusive ls s) :
    ∃ stage, Local reader s stage ∧ TableOk s stage := by
  refine h.invariant (I := fun _ s => ∃ stage, Local reader s stage ∧ TableOk s stage)
    ⟨_, local_init, ⟨fun n d => ?_, nofun⟩⟩ ?_
  · simp [Stage.Holds, server, Server.session]
  rintro ls s l t ⟨stage, hlocal, htable⟩ ⟨hid, hfree⟩ hn
  obtain ⟨stage', hstep⟩ := local_step hlocal hid hn
  exact ⟨stage', hstep.all, tableOk_step hlocal htable hfree hstep.table⟩

end Table

/-! ### Names are exclusive -/

/-- An open connection that was sent `login_response` `200` for the name `n`, with no
unparsable frame since. -/
def LoggedIn (reader : Reader) (s : Server) (c : ConnId) (n : Bytes) : Prop :=
  (∃ k, s.conn c = some k ∧ k.phase.Open) ∧
    ∃ before after ok, s.log = before ++ after ∧ LoginAt reader c n ok before ∧
      ∀ data, Event.frame c data ∈ after → frameMessage reader data ≠ none

/-- The table of the server is right about names. -/
structure NamesOk (reader : Reader) (s : Server) : Prop where
  /-- An entry is an open connection with that name as its `$id`. -/
  owner : ∀ n c, s.session n = some c → ∃ k, s.conn c = some k ∧ k.Claims n
  /-- A connection that is logged in has its entry. -/
  entry : ∀ n c, LoggedIn reader s c n → s.session n = some c
  /-- No two connections are logged in under one name. -/
  unique : ∀ n c d, LoggedIn reader s c n → LoggedIn reader s d n → c = d

/-- A step of one connection removes no entry of another. -/
def KeepsOthers (s t : Server) (l : Label) : Prop :=
  ∀ n d, s.session n = some d → (∀ ok time, l ≠ .act d ok time) → t.session n = some d

/-- **Names are exclusive** in every run whose steps meet the conditions: an entry of
the table belongs to an open connection with that `$id`, a connection that is logged
in has its entry, no two connections are logged in under one name, and no step of
a connection, its end included, removes the entry of another. -/
theorem names_exclusive {reader : Reader} {ls : List Label} {s : Server}
    (h : (server reader).Run Exclusive ls s) :
    NamesOk reader s ∧
      ∀ l t, Exclusive s l → (server reader).next s l = some t → KeepsOthers s t l := by
  obtain ⟨stage, hlocal, htable⟩ := run_tableOk h
  obtain ⟨-, halong⟩ := run_local (h.mono fun _ _ hok => hok.1)
  have hentry : ∀ n c, LoggedIn reader s c n → s.session n = some c := by
    rintro n c ⟨⟨k, hk, hopen⟩, before, after, ok, hlog, hat, hparse⟩
    rw [hlog] at halong
    obtain ⟨hlogin, hbroken⟩ := login_of_loginAt halong hat hparse
    rw [← hlog] at hlogin hbroken
    exact (htable.entry n c).2 (Or.inr ⟨ok, (hlocal c).member hk hopen hlogin hbroken⟩)
  refine ⟨⟨fun n c hn => (hlocal c).claims (Or.inl ((htable.entry n c).1 hn)), hentry, ?_⟩, ?_⟩
  · intro n c d hc hd
    exact Option.some.inj ((hentry n c hc).symm.trans (hentry n d hd))
  · rintro l t ⟨hid, hfree⟩ hn n d hd hother
    obtain ⟨stage', hstep⟩ := local_step hlocal hid hn
    have htable' := tableOk_step hlocal htable hfree hstep.table
    exact (htable'.entry n d).2 (hstep.table.holds hother ((htable.entry n d).1 hd))

/-- Two clients; the first logs in as `bob`, leaves, and the second logs in as `bob`. -/
def bobAfterBob : List Label :=
  [.accept 1 (handshake []), .accept 2 (handshake [])] ++ acts 1 1 ++ acts 2 1 ++
    .frame 1 loginText :: acts 1 8 ++ .eof 1 :: acts 1 5 ++ .frame 2 loginText :: acts 2 8

set_option maxRecDepth 4000 in
/-- One after the other, two clients may both be `bob`. -/
theorem names_exclusive_bobAfterBob : ∃ s, (server sampleReader).Run Exclusive bobAfterBob s ∧
    s.session (str "bob") = some 2 ∧ NamesOk sampleReader s := by
  obtain ⟨s, hs, hbob⟩ := Option.map_eq_some_iff.1 (show ((server sampleReader).exec
    (fun s l => decide (Exclusive s l)) (server sampleReader).init bobAfterBob).map
      (fun s => s.session (str "bob")) = some (some 2) by decide)
  have hrun : (server sampleReader).Run Exclusive bobAfterBob s :=
    System.run_of_exec (fun _ _ h => of_decide_eq_true h) hs
  exact ⟨s, hrun, hbob, (names_exclusive hrun).1⟩

/-- Two clients log in as `bob` at once: both look the name up before either enters
it. -/
def twoBobs : List Label :=
  [.accept 1 (handshake []), .accept 2 (handshake [])] ++ acts 1 1 ++ acts 2 1 ++
    [.frame 1 loginText, .frame 2 loginText] ++ acts 1 2 ++ acts 2 2 ++ acts 1 6 ++ acts 2 6

/-- The history of `twoBobs` up to the answer to the first client. -/
def twoBobsLog : List Event :=
  [.accept 1, .accept 2, .frame 1 loginText, .frame 2 loginText,
    .notify 1 (notice (str "user_center") (str "12:00") (str "bob")),
    .send 1 1 (response (str "login_response") (str "200") (str "ok")) true]

set_option maxRecDepth 4000 in
/-- **Two logins can race.**  Both clients are told `200` for `bob` and are open, and the
table knows the second only. -/
theorem login_race : ¬∀ ls s, (server sampleReader).Run anyStep ls s →
    NamesOk sampleReader s ∧ ∀ l t, (server sampleReader).next s l = some t → KeepsOthers s t l := by
  intro hall
  obtain ⟨s, hs, hend⟩ := Option.map_eq_some_iff.1 (show ((server sampleReader).exec
    (fun _ _ => true) (server sampleReader).init twoBobs).map
      (fun s => (s.session (str "bob"), (s.conn 1).map (fun k => decide k.phase.Open), s.log)) =
      some (some 2, some true, twoBobsLog ++
        [.notify 2 (notice (str "user_center") (str "12:00") (str "bob")),
          .send 2 2 (response (str "login_response") (str "200") (str "ok")) true]) by decide)
  obtain ⟨hbob, hopen, hlog⟩ : s.session (str "bob") = some 2 ∧
      (s.conn 1).map (fun k => decide k.phase.Open) = some true ∧ _ := by simpa using hend
  obtain ⟨k, hk, hk'⟩ := Option.map_eq_some_iff.1 hopen
  have hfirst : LoggedIn sampleReader s 1 (str "bob") := by
    refine ⟨⟨k, hk, of_decide_eq_true hk'⟩, twoBobsLog, _, true, hlog, ?_, by simp⟩
    exact ⟨[.accept 1, .accept 2], loginText, [.frame 2 loginText,
      .notify 1 (notice (str "user_center") (str "12:00") (str "bob"))], 1,
      response (str "login_response") (str "200") (str "ok"), _, rfl, by simp, rfl, by decide, by decide,
      by decide⟩
  have hone := (hall twoBobs s (System.run_of_exec (fun _ _ _ => trivial) hs)).1.entry _ _ hfirst
  rw [hbob] at hone
  exact absurd hone (by decide)

end Chat
end Wuchat
