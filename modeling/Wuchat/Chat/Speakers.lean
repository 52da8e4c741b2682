/-
# Who speaks under a name

A `msg` or `user_leave` broadcast carries a name; the clients take it for the name
of a connection that logged in with it.  In every run in which no accepted
handshake brings a `$id` header this is so: the connection that causes the
broadcast was sent a `login_response` with result `200` for that name before
(`broadcast_after_login`).  A client that does send `$id: bob` in its handshake
leaves as `bob` without a login (`forged_user_leave`).

The record a history leaves of a connection and the events themselves say the
same (`exists_loginAt_of_login`, `login_of_loginAt`).
-/

import Mathlib.Data.List.Induction
import Wuchat.Chat.LoginInvariant

namespace Wuchat
namespace Chat

open Foundation Http

variable {reader : Reader} {c : ConnId} {n : Bytes} {ok : Bool} {log : List Event}

/-! ### Records and events -/

/-- An event other than a frame of `c` leaves the message of its record. -/
theorem message_step {r : Record} {e : Event} (h : ∀ data, e ≠ .frame c data) :
    (r.step reader c e).message = r.message := by
  cases e with
  | frame c' data =>
    have hne : c' ≠ c := fun hc => h data (by rw [hc])
    rw [Record.step, if_neg hne]
  | send src dst msg ok =>
    rw [Record.step]
    split <;> rfl
  | accept c' => rfl
  | eof c' => rfl
  | notify c' msg => rfl

/-- The message of a record is that of the last frame. -/
theorem exists_frame_of_message {m : ChatMessage} (h : (record reader c log).message = some m) :
    ∃ log₁ data log₂, log = log₁ ++ .frame c data :: log₂ ∧ (∀ data', Event.frame c data' ∉ log₂) ∧
      frameMessage reader data = some m := by
  induction log using List.reverseRecOn with
  | nil => cases h
  | append_singleton log e ih =>
    rcases Classical.em (∃ data, e = .frame c data) with ⟨data, rfl⟩ | hframe
    · rw [record_append, Record.step, if_pos rfl] at h
      exact ⟨log, data, [], rfl, fun _ => List.not_mem_nil, h⟩
    · rw [record_append, message_step fun data he => hframe ⟨data, he⟩] at h
      obtain ⟨log₁, data, log₂, rfl, hno, hm⟩ := ih h
      refine ⟨log₁, data, log₂ ++ [e], by simp, fun data' hmem => ?_, hm⟩
      rcases List.mem_append.1 hmem with hmem | hmem
      · exact hno data' hmem
      · exact hframe ⟨data', (List.mem_singleton.1 hmem).symm⟩

/-- The last frame decides the message of the record. -/
theorem message_of_frame {data : Bytes} (log₁ : List Event) {log₂ : List Event}
    (h : ∀ data', Event.frame c data' ∉ log₂) :
    (record reader c (log₁ ++ .frame c data :: log₂)).message = frameMessage reader data := by
  induction log₂ using List.reverseRecOn with
  | nil =>
    rw [record_append, Record.step, if_pos rfl]
  | append_singleton log₂ e ih =>
    have hrest : ∀ data', Event.frame c data' ∉ log₂ := fun data' hmem =>
      h data' (List.mem_append_left _ hmem)
    rw [← List.cons_append, ← List.append_assoc, record_append, message_step, ih hrest]
    intro data' he
    exact h data' (by rw [he]; simp)

/-- An event other than the answer to a login leaves the login of a record. -/
theorem login_step {r : Record} {e : Event}
    (h : ∀ src msg ok, e = .send src c msg ok → ¬IsLoginOk msg) :
    (r.step reader c e).login = r.login := by
  cases e with
  | frame c' data =>
    rw [Record.step]
    split <;> rfl
  | send src dst msg ok =>
    rw [Record.step, if_neg]
    rintro ⟨rfl, hmsg⟩
    exact h src msg ok rfl hmsg
  | accept c' => rfl
  | eof c' => rfl
  | notify c' msg => rfl

/-- **A login in the record of a sound history stands in the history.** -/
theorem exists_loginAt_of_login (hlog : Along (Sound reader) log)
    (h : (record reader c log).login = some (n, ok)) :
    ∃ before after, log = before ++ after ∧ LoginAt reader c n ok before := by
  induction hlog with
  | nil => cases h
  | @snoc log e hlog he ih =>
    rcases Classical.em (∃ src msg ok', e = .send src c msg ok' ∧ IsLoginOk msg) with
      ⟨src, msg, ok', rfl, hmsg⟩ | hno
    · -- the answer itself: the frame it answers is the last one of `c`
      obtain ⟨-, m, hm, htype⟩ := he hmsg
      rw [record_append, Record.step, if_pos ⟨rfl, hmsg⟩, hm, Option.getD_some] at h
      obtain ⟨hname, rfl⟩ := Prod.mk.inj (Option.some.inj h)
      obtain ⟨log₁, data, log₂, rfl, hframe, hdata⟩ := exists_frame_of_message hm
      exact ⟨_, [], (List.append_nil _).symm, log₁, data, log₂, src, msg, m, by simp, hframe, hdata,
        htype, hname, hmsg⟩
    · rw [record_append, login_step fun src msg ok' he' hmsg => hno ⟨src, msg, ok', he', hmsg⟩] at h
      obtain ⟨before, after, rfl, hat⟩ := ih h
      exact ⟨before, after ++ [e], List.append_assoc _ _ _, hat⟩

/-- **The answer to a login stays in the record** of a sound history, and so does the
fact that every frame since then parsed. -/
theorem login_of_loginAt {before after : List Event} (hlog : Along (Sound reader) (before ++ after))
    (hat : LoginAt reader c n ok before)
    (hparse : ∀ data, Event.frame c data ∈ after → frameMessage reader data ≠ none) :
    (record reader c (before ++ after)).login = some (n, ok) ∧
      (record reader c (before ++ after)).broken = false := by
  induction after using List.reverseRecOn with
  | nil =>
    obtain ⟨log₁, data, log₂, c', msg, m, rfl, hno, hdata, -, hname, hmsg⟩ := hat
    rw [List.append_nil, ← List.cons_append, ← List.append_assoc, record_append, Record.step,
      if_pos ⟨rfl, hmsg⟩, message_of_frame log₁ hno, hdata, Option.getD_some, hname]
    exact ⟨rfl, rfl⟩
  | append_singleton after e ih =>
    rw [← List.append_assoc] at hlog ⊢
    obtain ⟨hlogin, hbroken⟩ := ih hlog.left fun data hmem => hparse data (List.mem_append_left _ hmem)
    have he : Sound reader (before ++ after) e := hlog.at rfl
    -- no second answer: a sound history answers `200` only to a connection without a login
    have hno : ∀ src msg ok', e = .send src c msg ok' → ¬IsLoginOk msg := by
      rintro src msg ok' rfl hmsg
      rw [(he hmsg).1] at hlogin
      cases hlogin
    rw [record_append]
    refine ⟨(login_step hno).trans hlogin, ?_⟩
    rcases Classical.em (∃ data, e = .frame c data) with ⟨data, rfl⟩ | hframe
    · have hdata : frameMessage reader data ≠ none := hparse data (by simp)
      rw [Record.step, if_pos rfl]
      simpa [hbroken, Option.isSome_iff_ne_none] using hdata
    · rw [Record.step_eq_self _ (fun data hd => hframe ⟨data, hd⟩) hno]
      exact hbroken

/-! ### The speakers -/

/-- A notification in the name of a user: a chat line, or the news that the user
left. -/
def SpeaksFor (msg : ChatMessage) (n : Bytes) : Prop :=
  (msg.get (str "type") = str "msg" ∨ msg.get (str "type") = str "user_leave") ∧
    msg.get (str "name") = n

/-- **A broadcast under a name follows a login with that name.**  In every run whose
accepted handshakes bring no `$id` header, whenever a connection causes a broadcast
of type `msg` or `user_leave` carrying the name `n`, a `login_response` with result
`200` for `n` was sent to that connection before. -/
theorem broadcast_after_login {ls : List Label} {s : Server}
    (h : (server reader).Run NoIdHeader ls s) {pre post : List Event} {msg : ChatMessage}
    (hlog : s.log = pre ++ .notify c msg :: post) (hmsg : SpeaksFor msg n) :
    ∃ before after ok, pre = before ++ after ∧ LoginAt reader c n ok before := by
  obtain ⟨-, halong⟩ := run_local h
  obtain ⟨htype, rfl⟩ := hmsg
  have hsound : Sound reader pre (.notify c msg) := halong.at hlog
  have hlogin : ∃ ok, (record reader c pre).login = some (msg.get (str "name"), ok) := by
    rcases htype with htype | htype
    · exact ⟨true, hsound.1 htype⟩
    · exact hsound.2 htype
  obtain ⟨ok, hlogin⟩ := hlogin
  have hpre : Along (Sound reader) pre := by
    rw [hlog] at halong
    exact halong.left
  obtain ⟨before, after, hsplit, hat⟩ := exists_loginAt_of_login hpre hlogin
  exact ⟨before, after, ok, hsplit, hat⟩

/-- A client logs in as `bob` and says `hi`. -/
def bobSpeaks : List Label :=
  .accept 1 (handshake []) :: acts 1 1 ++ .frame 1 loginText :: acts 1 8 ++ .frame 1 sendText :: acts 1 3

set_option maxRecDepth 4000 in
/-- The broadcast of `hi` under `bob` follows a login of that connection as `bob`. -/
theorem broadcast_after_login_bobSpeaks : ∃ s pre msg,
    (server sampleReader).Run NoIdHeader bobSpeaks s ∧ s.log = pre ++ [.notify 1 msg] ∧
      SpeaksFor msg (str "bob") ∧
      ∃ before after ok, pre = before ++ after ∧ LoginAt sampleReader 1 (str "bob") ok before := by
  obtain ⟨s, hs, hlog⟩ := Option.map_eq_some_iff.1 (show ((server sampleReader).exec
    (fun s l => decide (NoIdHeader s l)) (server sampleReader).init bobSpeaks).map Server.log = some
      ([.accept 1, .frame 1 loginText, .notify 1 (notice (str "user_center") (str "12:00") (str "bob")),
        .send 1 1 (response (str "login_response") (str "200") (str "ok")) true, .frame 1 sendText]
        ++ [.notify 1 ((notice (str "msg") (str "12:00") (str "bob")).set (str "msg") (str "hi"))])
    by decide +kernel)
  have hrun : (server sampleReader).Run NoIdHeader bobSpeaks s :=
    System.run_of_exec (fun _ _ h => of_decide_eq_true h) hs
  have hspeaks : SpeaksFor ((notice (str "msg") (str "12:00") (str "bob")).set (str "msg") (str "hi"))
      (str "bob") := ⟨Or.inl (by decide), by decide⟩
  exact ⟨s, _, _, hrun, hlog, hspeaks, broadcast_after_login hrun hlog hspeaks⟩

/-- A client that brings `$id: bob` in its handshake and leaves. -/
def forgedId : List Label :=
  .accept 1 (handshake [(str "$ID", str "bob")]) :: acts 1 1 ++ .eof 1 :: acts 1 4

set_option maxRecDepth 4000 in
/-- **A forged `$id` header speaks for a stranger.**  The client has sent no frame and
was never sent a `login_response`, and the news that `bob` left is broadcast. -/
theorem forged_user_leave : ¬∀ ls s pre post c n msg,
    (server sampleReader).Run anyStep ls s → s.log = pre ++ .notify c msg :: post →
      SpeaksFor msg n →
      ∃ before after ok, pre = before ++ after ∧ LoginAt sampleReader c n ok before := by
  intro hall
  obtain ⟨s, hs, hlog⟩ := Option.map_eq_some_iff.1 (show ((server sampleReader).exec
    (fun _ _ => true) (server sampleReader).init forgedId).map Server.log = some
      [.accept 1, .eof 1, .notify 1 (notice (str "user_leave") (str "12:00") (str "bob"))]
    by decide)
  obtain ⟨before, after, ok, hpre, log₁, data, log₂, c', msg, m, rfl, -⟩ :=
    hall forgedId s [.accept 1, .eof 1] [] 1 (str "bob") _
      (System.run_of_exec (fun _ _ _ => trivial) hs) hlog ⟨Or.inr (by decide), by decide⟩
  have hframe : Event.frame 1 data ∈ [Event.accept 1, .eof 1] := by
    rw [hpre]
    simp
  simp at hframe

end Chat
end Wuchat
