import AgentShim.Core.Scalars
import AgentShim.Lib.Mailbox
import AgentShim.Router.ResilientCaller

/-
  The Copilot token actor

  One task owns the Copilot token. Its clients send `Get` and `Invalidate` into a
  channel of sixteen; it reads them one at a time, answers a `Get` with the token
  it holds while that has more than a minute to live, and otherwise exchanges the
  stored credentials for a new one, reading no other message meanwhile.

  What is proved:
    1. `answered_in_order` — whatever the interleaving, the messages are served
       in the order they were sent, every `Get` once, each after at most two
       moves of the actor for every message before it.
    2. `renewed_after_unauthorized` — a `Get` sent after a client has reported a
       401 is never answered with a token exchanged before the report.
    3. `served_token` — a token is the answer of the exchange made for the very
       `Get`, or it came from an earlier one with no invalidation since and has
       more than a minute left.
    4. `coalesced` — while a token lives and nobody invalidates it, one exchange
       answers every `Get` that follows.

  A message is named by its position among the messages sent. The subtraction of
  the two timestamps wraps as the release build's does.

  Correspondence (Rust ↔ Lean):
    `actor`                       ↔ `actor` on `Mailbox.step`, capacity 16: `take`
                                    up to the exchange, `finish` after it
    `CredentialSource::load`      ↔ `Reading.creds`, read anew for each `Get`
    `chrono::Utc::now()`          ↔ `Reading.now`
    `exchange_with_base`          ↔ `exchangeRequest`, `exchangeWithBase`
    the status checks of `complete` and `proxy_raw` ↔ `onUpstreamStatus`
  The channel is never closed: the provider that holds the sender lives as long
  as the gateway.
-/

namespace AgentShim.TokenManager

open Mailbox Runs AgentShim.RequestLog

structure StoredCredentials where
  githubOauthToken : String
  createdAtUnix : Int
  deriving DecidableEq, Repr

structure TokenExchangeResponse where
  token : String
  expiresAt : Int
  refreshIn : Option Int
  api : String
  deriving DecidableEq, Repr

structure CopilotToken where
  token : String
  apiBase : String
  expiresAtUnix : Int
  deriving DecidableEq, Repr

inductive ActorMsg
  | get
  | invalidate
  deriving DecidableEq, Repr

/-- What the actor reads as it takes a message. -/
structure Reading where
  now : Int
  creds : Except ProviderError StoredCredentials

/-- What an exchange comes back with; `json` is the body decoded. -/
inductive ExchangeReply
  | unreachable (message : String)
  | answered (status : Nat) (body : String) (json : Except String TokenExchangeResponse)

structure ExchangeRequest where
  url : String
  headers : List (String × String)
  deriving DecidableEq, Repr

def exchangeRequest (creds : StoredCredentials) (baseUrl : String) : ExchangeRequest where
  url := Text.trimEndMatches baseUrl '/' ++ "/copilot_internal/v2/token"
  headers :=
    [("authorization", s!"token {creds.githubOauthToken}"),
     ("user-agent", "GitHubCopilotChat/0.20.0"),
     ("Editor-Version", "AgentShim/0.4.0"),
     ("Accept", "application/json")]

def isSuccess (status : Nat) : Bool := decide (200 ≤ status) && decide (status < 300)

def exchangeWithBase : ExchangeReply → Except ProviderError CopilotToken
  | .unreachable message => .error (.network message)
  | .answered status body json =>
    if status == 401 then
      .error (.upstream 401 "unauthorized – re-run `copilot login`")
    else if !isSuccess status then .error (.upstream status body)
    else
      match json with
      | .error e => .error (.decode s!"token response: {e}")
      | .ok exchange => .ok ⟨exchange.token, exchange.api, exchange.expiresAt⟩

/-- The subtraction of two `i64`s. -/
def subI64 (a b : Int) : Int := (a - b).bmod 18446744073709551616

/-- More than a minute to live. -/
def usable (t : CopilotToken) (now : Int) : Bool := decide (60 < subI64 t.expiresAtUnix now)

abbrev Reply := Except ProviderError CopilotToken

/-- Loads the credentials and exchanges them. -/
def exchange (cached : Option CopilotToken) (input : Reading) :
    Outcome (Option CopilotToken) (Option Reply) :=
  match input.creds with
  | .error e =>
    .answered cached (some (.error (.network
      (s!"load credentials: {ResilientCaller.errorMessage e} — run `agent-shim copilot login`" ++
        " first"))))
  | .ok _ => .working

/-- The actor; an `Invalidate` has no answer. -/
def actor : Server (Option CopilotToken) ActorMsg Reading ExchangeReply (Option Reply) where
  take cached msg input :=
    match msg with
    | .invalidate => .answered none none
    | .get =>
      match cached with
      | some t =>
        if usable t input.now then .answered cached (some (.ok t)) else exchange cached input
      | none => exchange cached input
  finish _ _ _ reply :=
    match exchangeWithBase reply with
    | .ok t => (some t, some (.ok t))
    | .error e => (none, some (.error e))

/-- The messages a client sends for the status of its upstream call, and the
error it returns. -/
def onUpstreamStatus (status : Nat) (body : String) : List ActorMsg × Option ProviderError :=
  if status == 401 then
    ([.invalidate], some (.upstream 401 "Copilot token expired, invalidated – retry"))
  else if !isSuccess status then ([], some (.upstream status body))
  else ([], none)

abbrev ActorWorld := World (Option CopilotToken) ActorMsg Reading ExchangeReply (Option Reply)

abbrev ActorEvent := Event ActorMsg Reading ExchangeReply

abbrev ServedMsg := Served ActorMsg Reading ExchangeReply (Option Reply)

/-- The channel as it is created, with nothing sent. -/
def spawn : ActorWorld := World.start none

abbrev next : ActorWorld → ActorEvent → Option ActorWorld := step actor 16

/-- The exchange made for the message gave the token. -/
def Exchanged (e : ServedMsg) (t : CopilotToken) : Prop :=
  ∃ reply, e.reply = some reply ∧ exchangeWithBase reply = .ok t

/-! ## One message -/

theorem subI64_eq {a b : Int} (hlow : -9223372036854775808 ≤ a - b)
    (hhigh : a - b < 9223372036854775808) : subI64 a b = a - b :=
  Int.bmod_eq_of_le (by omega) (by omega)

theorem exchange_answered {cached s : Option CopilotToken} {input : Reading} {r : Option Reply}
    (h : exchange cached input = .answered s r) : s = cached ∧ ∃ e, r = some (.error e) := by
  unfold exchange at h
  cases hc : input.creds with
  | error e =>
    simp only [hc, Outcome.answered.injEq] at h
    exact ⟨h.1.symm, _, h.2.symm⟩
  | ok c => simp [hc] at h

/-- Everything serving a message can do to the token and the answer. -/
theorem serves_cases {s s' : Option CopilotToken} {e : ServedMsg} (h : Serves actor s e s') :
    (e.msg = .invalidate ∧ e.reply = none ∧ s' = none ∧ e.answer = none) ∨
    (e.msg = .get ∧ e.reply = none ∧ s' = s ∧
      ∃ t, s = some t ∧ usable t e.input.now = true ∧ e.answer = some (.ok t)) ∨
    (e.msg = .get ∧ e.reply = none ∧ s' = s ∧
      (∀ t, s = some t → usable t e.input.now = false) ∧ ∃ err, e.answer = some (.error err)) ∨
    (e.msg = .get ∧ (∀ t, s = some t → usable t e.input.now = false) ∧
      ∃ reply, e.reply = some reply ∧ e.answer = some (exchangeWithBase reply) ∧
        s' = (exchangeWithBase reply).toOption) := by
  obtain ⟨hnone, htake⟩ | ⟨reply, hreply, htake, hfinish⟩ := h
  · cases hm : e.msg with
    | invalidate =>
      simp only [actor, hm, Outcome.answered.injEq] at htake
      exact Or.inl ⟨rfl, hnone, htake.1.symm, htake.2.symm⟩
    | get =>
      simp only [actor, hm] at htake
      cases s with
      | none =>
        obtain ⟨rfl, herr⟩ := exchange_answered htake
        exact Or.inr (Or.inr (Or.inl ⟨rfl, hnone, rfl, by simp, herr⟩))
      | some t =>
        cases hu : usable t e.input.now with
        | true =>
          simp only [hu, if_true, Outcome.answered.injEq] at htake
          exact Or.inr (Or.inl ⟨rfl, hnone, htake.1.symm, t, rfl, hu, htake.2.symm⟩)
        | false =>
          simp only [hu, Bool.false_eq_true, if_false] at htake
          obtain ⟨rfl, herr⟩ := exchange_answered htake
          exact Or.inr (Or.inr (Or.inl ⟨rfl, hnone, rfl, by simpa using hu, herr⟩))
  · have hget : e.msg = .get := by
      cases hm : e.msg with
      | get => rfl
      | invalidate => simp [actor, hm] at htake
    have hstale : ∀ t, s = some t → usable t e.input.now = false := by
      intro t ht
      cases hu : usable t e.input.now with
      | false => rfl
      | true => simp [actor, hget, ht, hu] at htake
    refine Or.inr (Or.inr (Or.inr ⟨hget, hstale, reply, hreply, ?_⟩))
    cases hx : exchangeWithBase reply with
    | ok t =>
      simp only [actor, hx, Prod.mk.injEq] at hfinish
      exact ⟨hfinish.2.symm, hfinish.1.symm⟩
    | error err =>
      simp only [actor, hx, Prod.mk.injEq] at hfinish
      exact ⟨hfinish.2.symm, hfinish.1.symm⟩

theorem serves_answer {s s' : Option CopilotToken} {e : ServedMsg} (h : Serves actor s e s') :
    e.answer.isSome = (e.msg == .get) := by
  obtain ⟨hm, -, -, ha⟩ | ⟨hm, -, -, t, -, -, ha⟩ | ⟨hm, -, -, -, err, ha⟩ |
    ⟨hm, -, reply, -, ha, -⟩ := serves_cases h <;> simp [hm, ha]

/-! ## Where the token comes from -/

/-- The token in the cache is that of an exchange made for one of the messages
served, with no invalidation served after it. -/
def FromLastExchange (served : List ServedMsg) (cached : Option CopilotToken) : Prop :=
  ∀ t, cached = some t → ∃ (k : Nat) (e : ServedMsg), served[k]? = some e ∧ Exchanged e t ∧
    ∀ (l : Nat) (e' : ServedMsg), k < l → served[l]? = some e' → e'.msg = .get

theorem fromLastExchange_keep {pre : List ServedMsg} {e : ServedMsg} {cached : Option CopilotToken}
    (h : FromLastExchange pre cached) (hget : e.msg = .get) :
    FromLastExchange (pre ++ [e]) cached := by
  intro t ht
  obtain ⟨k, e₀, hk, hx, hlater⟩ := h t ht
  have hlt : k < pre.length := (List.getElem?_eq_some_iff.mp hk).1
  refine ⟨k, e₀, by rw [List.getElem?_append_left hlt]; exact hk, hx, fun l e' hkl hl => ?_⟩
  by_cases hpre : l < pre.length
  · rw [List.getElem?_append_left hpre] at hl
    exact hlater l e' hkl hl
  · rw [List.getElem?_append_right (by omega), List.getElem?_singleton] at hl
    split at hl
    · rw [← Option.some.inj hl]
      exact hget
    · simp at hl

theorem fromLastExchange_renew {pre : List ServedMsg} {e : ServedMsg}
    {reply : ExchangeReply} (hreply : e.reply = some reply) :
    FromLastExchange (pre ++ [e]) (exchangeWithBase reply).toOption := by
  intro t ht
  have hx : exchangeWithBase reply = .ok t := by
    cases hres : exchangeWithBase reply with
    | error err => simp [hres, Except.toOption] at ht
    | ok t' =>
      rw [hres] at ht
      exact congrArg _ (Option.some.inj ht)
  refine ⟨pre.length, e, by simp, ⟨reply, hreply, hx⟩, fun l e' hl hl' => ?_⟩
  rw [List.getElem?_eq_none (by simp; omega)] at hl'
  simp at hl'

theorem replay_fromLastExchange {s : Option CopilotToken} {served : List ServedMsg}
    (h : Replay actor none served s) : FromLastExchange served s := by
  refine h.history (I := FromLastExchange) (fun t ht => by simp at ht) ?_
  intro pre e m m' hI hserves
  obtain ⟨-, -, rfl, -⟩ | ⟨hm, -, rfl, -⟩ | ⟨hm, -, rfl, -⟩ | ⟨-, -, reply, hreply, -, rfl⟩ :=
    serves_cases hserves
  · exact fun t ht => by simp at ht
  · exact fromLastExchange_keep hI hm
  · exact fromLastExchange_keep hI hm
  · exact fromLastExchange_renew hreply

/-- Where a token that answers a `Get` comes from. -/
theorem answer_origin {s : Option CopilotToken} {served : List ServedMsg}
    (h : Replay actor none served s) {j : Nat} {e : ServedMsg} (hj : served[j]? = some e)
    {t : CopilotToken} (ht : e.answer = some (.ok t)) :
    Exchanged e t ∨
    (e.reply = none ∧ usable t e.input.now = true ∧
      ∃ k e₀, k < j ∧ served[k]? = some e₀ ∧ Exchanged e₀ t ∧
        ∀ l (e' : ServedMsg), k < l → l < j → served[l]? = some e' → e'.msg = .get) := by
  obtain ⟨m, m', hpre, hserves⟩ := h.at hj
  obtain ⟨-, -, -, ha⟩ | ⟨-, hr, -, t', hm, hu, ha⟩ | ⟨-, -, -, -, err, ha⟩ |
    ⟨-, -, reply, hreply, ha, -⟩ := serves_cases hserves
  · simp [ha] at ht
  · obtain rfl : t' = t := by simpa [ha] using ht
    obtain ⟨k, e₀, hk, hx, hlater⟩ := replay_fromLastExchange hpre t' hm
    obtain ⟨hkj, hk'⟩ : k < j ∧ served[k]? = some e₀ := by
      rw [List.getElem?_take] at hk
      split at hk
      · exact ⟨‹_›, hk⟩
      · simp at hk
    refine Or.inr ⟨hr, hu, k, e₀, hkj, hk', hx, fun l e' hkl hlj hl => ?_⟩
    exact hlater l e' hkl (by rw [List.getElem?_take, if_pos hlj]; exact hl)
  · simp [ha] at ht
  · exact Or.inl ⟨reply, hreply, by simpa [ha] using ht⟩

/-! ## Runs of the actor and its clients -/

/-- What the client that sent the message at a position was answered. -/
def answerAt (w : ActorWorld) (i : Nat) : Option Reply := w.served[i]?.bind Served.answer

theorem answerAt_eq_some {w : ActorWorld} {i : Nat} {r : Reply} :
    answerAt w i = some r ↔ ∃ e, w.served[i]? = some e ∧ e.answer = some r := by
  simp [answerAt, Option.bind_eq_some_iff]

/-! A token for an hour, and two clients that ask for it. -/

def hourToken : CopilotToken := ⟨"tid=1", "https://api.githubcopilot.com", 3600⟩

def hourReply : ExchangeReply :=
  .answered 200 "" (.ok ⟨"tid=1", 3600, none, "https://api.githubcopilot.com"⟩)

def atSecond (now : Int) : Reading := ⟨now, .ok ⟨"gho", 0⟩⟩

def firstServed : ServedMsg := ⟨.get, atSecond 0, some hourReply, some (.ok hourToken)⟩

def secondServed : ServedMsg := ⟨.get, atSecond 10, none, some (.ok hourToken)⟩

def twoClients : List ActorEvent :=
  [.send .get, .send .get, .take (atSecond 0), .finish hourReply, .take (atSecond 10)]

def bothAsked : ActorWorld := ⟨[.get, .get], none, none, []⟩

def firstAnswered : ActorWorld := ⟨[.get], none, some hourToken, [firstServed]⟩

def twoServed : ActorWorld := ⟨[], none, some hourToken, [firstServed, secondServed]⟩

/-- The first client is refused by its upstream, and asks again. -/
def renewed : ActorWorld :=
  ⟨[], none, some hourToken, [firstServed, secondServed, ⟨.invalidate, atSecond 20, none, none⟩,
    ⟨.get, atSecond 20, some hourReply, some (.ok hourToken)⟩]⟩

theorem run_answered {es : List ActorEvent} {w : ActorWorld}
    (h : exec next spawn es = some w) {i : Nat} {e : ServedMsg} (he : w.served[i]? = some e) :
    e.answer.isSome = (e.msg == .get) := by
  obtain ⟨m, m', -, hserves⟩ := (exec_replay h).1.at he
  exact serves_answer hserves

/-- Whatever is sent meanwhile, the messages are served in the order they were
sent, and a message that waits is served, with an answer if it is a `Get`, after
two moves of the actor for each message up to it. -/
theorem answered_in_order {es more : List ActorEvent} {w w' : ActorWorld}
    (h : exec next spawn es = some w) (hmore : exec next w more = some w') {p : Nat}
    {m : ActorMsg} (hp : w.queue[p]? = some m)
    (hmoves : w.working.length + 2 * (p + 1) ≤ moves more) :
    w.served.map Served.msg ++ w.working ++ w.queue = sent es ∧
      ∃ e, w'.served[w.served.length + w.working.length + p]? = some e ∧ e.msg = m ∧
        e.answer.isSome = (m == .get) := by
  have hall : exec next spawn (es ++ more) = some w' := exec_append_eq_some.mpr ⟨w, h, hmore⟩
  have horder := exec_order h
  refine ⟨horder, ?_⟩
  have hprogress := exec_progress hmore
  have hwork := w'.working_length_le
  have hi : w.served.length + w.working.length + p < w'.served.length := by omega
  refine ⟨_, List.getElem?_eq_getElem hi, ?_⟩
  have hmsg := exec_served_msg hall (List.getElem?_eq_getElem hi)
  have hsent : (sent (es ++ more))[w.served.length + w.working.length + p]? = some m := by
    have hlen : (w.served.map Served.msg ++ w.working).length =
        w.served.length + w.working.length := by simp
    have hlt : p < w.queue.length := (List.getElem?_eq_some_iff.mp hp).1
    rw [sent_append, ← horder, List.append_assoc,
      List.getElem?_append_right (by simp), hlen, List.getElem?_append_left (by omega)]
    simpa using hp
  have hm : w'.served[w.served.length + w.working.length + p].msg = m :=
    Option.some.inj (hmsg.symm.trans hsent)
  refine ⟨hm, ?_⟩
  rw [← hm]
  exact run_answered hall (List.getElem?_eq_getElem hi)

theorem answered_in_order_twoClients :
    bothAsked.served.map Served.msg ++ bothAsked.working ++ bothAsked.queue =
        sent (twoClients.take 2) ∧
      ∃ e, firstAnswered.served[bothAsked.served.length + bothAsked.working.length + 0]? = some e ∧
        e.msg = .get ∧ e.answer.isSome = (ActorMsg.get == .get) :=
  answered_in_order (show exec next spawn (twoClients.take 2) = some bothAsked from rfl)
    (show exec next bothAsked [.take (atSecond 0), .finish hourReply] = some firstAnswered from rfl)
    (show bothAsked.queue[0]? = some .get from rfl) (by decide)

/-- A token given out is the answer of the exchange made for the very `Get`; or
it is that of an earlier exchange, no invalidation was served in between, and it
has more than a minute to live. -/
theorem served_token {es : List ActorEvent} {w : ActorWorld}
    (h : exec next spawn es = some w) {j : Nat} {e : ServedMsg} (hj : w.served[j]? = some e)
    {t : CopilotToken} (ht : e.answer = some (.ok t))
    (hlow : -9223372036854775808 ≤ t.expiresAtUnix - e.input.now)
    (hhigh : t.expiresAtUnix - e.input.now < 9223372036854775808) :
    Exchanged e t ∨
    (e.reply = none ∧ e.input.now + 60 < t.expiresAtUnix ∧
      ∃ k e₀, k < j ∧ w.served[k]? = some e₀ ∧ Exchanged e₀ t ∧
        ∀ l (e' : ServedMsg), k < l → l < j → w.served[l]? = some e' → e'.msg = .get) := by
  obtain hnow | ⟨hr, hu, hearlier⟩ := answer_origin (exec_replay h).1 hj ht
  · exact Or.inl hnow
  · refine Or.inr ⟨hr, ?_, hearlier⟩
    rw [usable, subI64_eq hlow hhigh] at hu
    simp at hu
    omega

theorem served_token_twoClients :
    Exchanged secondServed hourToken ∨
    (secondServed.reply = none ∧ secondServed.input.now + 60 < hourToken.expiresAtUnix ∧
      ∃ k e₀, k < 1 ∧ twoServed.served[k]? = some e₀ ∧ Exchanged e₀ hourToken ∧
        ∀ l (e' : ServedMsg), k < l → l < 1 → twoServed.served[l]? = some e' → e'.msg = .get) :=
  served_token (show exec next spawn twoClients = some twoServed from rfl) rfl rfl
    (by decide) (by decide)

/-- After a client's report of a 401, a `Get` is not answered with a token whose
exchange was made for a message that had been taken by then. -/
theorem renewed_after_unauthorized {pre mid post : List ActorEvent} {w : ActorWorld}
    {body : String}
    (h : exec next spawn (pre ++ (onUpstreamStatus 401 body).1.map Event.send ++ mid ++
      .send .get :: post) = some w) {t : CopilotToken}
    (ht : answerAt w (sent (pre ++ (onUpstreamStatus 401 body).1.map Event.send ++ mid)).length =
      some (.ok t)) :
    (∃ k e, (sent pre).length < k ∧
      k ≤ (sent (pre ++ (onUpstreamStatus 401 body).1.map Event.send ++ mid)).length ∧
      w.served[k]? = some e ∧ Exchanged e t) ∧
    ∀ v, exec next spawn pre = some v →
      v.served.length + v.working.length ≤ (sent pre).length := by
  refine ⟨?_, fun v hv => exec_taken_le hv⟩
  have hreport : (onUpstreamStatus 401 body).1.map Event.send =
      [(Event.send .invalidate : ActorEvent)] := rfl
  rw [hreport] at h ht ⊢
  obtain ⟨e, hj, he⟩ := answerAt_eq_some.mp ht
  have hlen : (sent (pre ++ [(Event.send .invalidate : ActorEvent)] ++ mid)).length =
      (sent pre).length + 1 + (sent mid).length := by
    simp [sent_append, sent]
    omega
  rw [hlen] at hj ⊢
  obtain hnow | ⟨-, -, k, e₀, hkj, hk, hx, hgets⟩ := answer_origin (exec_replay h).1 hj he
  · exact ⟨_, e, by omega, by omega, hj, hnow⟩
  · refine ⟨k, e₀, ?_, by omega, hk, hx⟩
    -- the invalidation is among the messages served, and no exchange is made for it
    obtain ⟨hlt, -⟩ := List.getElem?_eq_some_iff.mp hj
    have hinv : (sent pre).length < w.served.length := by omega
    have hmsg : w.served[(sent pre).length].msg = .invalidate := by
      have hserved := exec_served_msg h (List.getElem?_eq_getElem hinv)
      rw [List.append_assoc, List.append_assoc, sent_append,
        List.getElem?_append_right (by omega), Nat.sub_self] at hserved
      exact (Option.some.inj hserved).symm
    by_contra hle
    by_cases heq : k = (sent pre).length
    · subst heq
      rw [List.getElem?_eq_getElem hinv] at hk
      obtain ⟨reply, hreply, -⟩ := hx
      obtain ⟨m, m', -, hserves⟩ := (exec_replay h).1.at (List.getElem?_eq_getElem hinv)
      rw [Option.some.inj hk] at hserves hmsg
      obtain ⟨-, hr, -⟩ | ⟨hg, -⟩ | ⟨hg, -⟩ | ⟨hg, -⟩ := serves_cases hserves
      · simp [hr] at hreply
      all_goals simp [hg] at hmsg
    · have hget := hgets (sent pre).length _ (by omega) (by omega) (List.getElem?_eq_getElem hinv)
      rw [hmsg] at hget
      simp at hget

theorem renewed_after_unauthorized_twoClients :
    (∃ k e, (sent twoClients).length < k ∧
      k ≤ (sent (twoClients ++ (onUpstreamStatus 401 "").1.map Event.send ++
        [(.take (atSecond 20) : ActorEvent)])).length ∧
      renewed.served[k]? = some e ∧ Exchanged e hourToken) ∧
    ∀ v, exec next spawn twoClients = some v →
      v.served.length + v.working.length ≤ (sent twoClients).length :=
  renewed_after_unauthorized
    (show exec next spawn (twoClients ++ (onUpstreamStatus 401 "").1.map Event.send ++
      [.take (atSecond 20)] ++ .send .get :: [.take (atSecond 20), .finish hourReply]) =
        some renewed from rfl)
    (show answerAt renewed 3 = some (.ok hourToken) from rfl)

/-- While a token is usable for each `Get` and nobody invalidates it, the actor
goes on holding it. -/
theorem replay_keeps {served : List ServedMsg} {k j : Nat} {e₀ : ServedMsg} {t : CopilotToken}
    (hk : served[k]? = some e₀) (hx : Exchanged e₀ t)
    (hlive : ∀ l (e : ServedMsg), k < l → l ≤ j → served[l]? = some e →
      e.msg = .get ∧ usable t e.input.now = true)
    {pre : List ServedMsg} {s : Option CopilotToken} (h : Replay actor none pre s)
    (hpre : pre <+: served) (hlong : k < pre.length) (hshort : pre.length ≤ j + 1) :
    s = some t := by
  revert hpre hlong hshort
  refine h.history (I := fun pre s => pre <+: served → k < pre.length → pre.length ≤ j + 1 →
    s = some t) (fun _ hlong => by simp at hlong) ?_
  intro pre e m m' ih hserves hpre hlong hshort
  have he : served[pre.length]? = some e := by
    obtain ⟨rest, rfl⟩ := hpre
    simp
  simp only [List.length_append, List.length_singleton] at hlong hshort
  by_cases hlast : k = pre.length
  · -- the message is the one the exchange was made for
    obtain rfl : e₀ = e := by
      rw [hlast, he] at hk
      exact (Option.some.inj hk).symm
    obtain ⟨reply, hreply, hok⟩ := hx
    obtain ⟨-, hr, -⟩ | ⟨-, hr, -⟩ | ⟨-, hr, -⟩ | ⟨-, -, reply', hreply', -, rfl⟩ :=
      serves_cases hserves
    iterate 3 simp [hr] at hreply
    rw [← Option.some.inj (hreply.symm.trans hreply'), hok]
    rfl
  · have hm : m = some t :=
      ih ((List.prefix_append pre [e]).trans hpre) (by omega) (by omega)
    obtain ⟨hget, hu⟩ := hlive pre.length e (by omega) (by omega) he
    obtain ⟨hi, -⟩ | ⟨-, -, rfl, -⟩ | ⟨-, -, rfl, -⟩ | ⟨-, hstale, -⟩ := serves_cases hserves
    · simp [hi] at hget
    · exact hm
    · exact hm
    · simp [hstale t hm] at hu

/-- While the token of one exchange is usable for each `Get` and nobody
invalidates it, it answers them all with no further exchange. -/
theorem coalesced {es : List ActorEvent} {w : ActorWorld} (h : exec next spawn es = some w)
    {k j : Nat} {e₀ : ServedMsg} {t : CopilotToken} (hk : w.served[k]? = some e₀)
    (hx : Exchanged e₀ t)
    (hlive : ∀ l (e : ServedMsg), k < l → l ≤ j → w.served[l]? = some e →
      e.msg = .get ∧ usable t e.input.now = true) :
    ∀ l (e : ServedMsg), k < l → l ≤ j → w.served[l]? = some e →
      e.reply = none ∧ e.answer = some (.ok t) := by
  intro l e hkl hlj hl
  obtain ⟨m, m', hpre, hserves⟩ := (exec_replay h).1.at hl
  have hlen : (w.served.take l).length = l := by
    have := (List.getElem?_eq_some_iff.mp hl).1
    simp
    omega
  have hm : m = some t :=
    replay_keeps hk hx hlive hpre (List.take_prefix l _) (by omega) (by omega)
  obtain ⟨hget, hu⟩ := hlive l e hkl hlj hl
  obtain ⟨hi, -⟩ | ⟨-, hr, -, t', ht', -, ha⟩ | ⟨-, -, -, hstale, -⟩ | ⟨-, hstale, -⟩ :=
    serves_cases hserves
  · simp [hi] at hget
  · obtain rfl : t' = t := Option.some.inj (ht'.symm.trans hm)
    exact ⟨hr, ha⟩
  · simp [hstale t hm] at hu
  · simp [hstale t hm] at hu

theorem coalesced_twoClients :
    secondServed.reply = none ∧ secondServed.answer = some (.ok hourToken) := by
  refine coalesced (show exec next spawn twoClients = some twoServed from rfl)
    (show twoServed.served[0]? = some firstServed from rfl) ⟨hourReply, rfl, rfl⟩ ?_
    1 secondServed (by decide) (le_refl 1) rfl
  intro l e hl hl' he
  obtain rfl : l = 1 := by omega
  obtain rfl : secondServed = e := Option.some.inj he
  exact ⟨rfl, by decide⟩

end AgentShim.TokenManager
