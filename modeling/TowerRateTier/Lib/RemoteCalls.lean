import TowerRateTier.Lib.TransitionSystem
import Mathlib.Data.List.Nodup
import Mathlib.Logic.Function.Basic

/-!
# Calls of a server over a network

A server executes one request after another, each in one step. Requests and
replies travel, may be late or get lost, and a client may give up at any moment,
which its request on the way does not notice. A request is on the way once at a
time: it is sent again only after a reply that tells the client to (a bounce), and
such a request had no effect.

* `Sound.step`: what every step keeps.
* `sound_of_run`: in every run each request takes effect at most once, and an
  answer is the reply that a sequential run of the server gives at one moment
  between the call and its answer.
-/

namespace RemoteCalls

/-! ## Servers -/

/-- A server: the effect of a request and its reply, what else may happen to the
    server, and which replies are bounces. -/
structure Service (σ ε α β : Type*) where
  exec : σ → α → σ × β
  env : σ → ε → σ
  bounces : β → Bool
  of_bounces : ∀ s a, bounces (exec s a).2 = true → (exec s a).1 = s

/-- A step of the server that is no bounce. -/
inductive ServerStep (ε α : Type*) where
  | env (e : ε)
  | exec (id : ℕ) (a : α)

/-- What is on the way for a call. -/
inductive Wire (β : Type*) where
  | request
  | reply (b : β)
  | silent

/-- What the client knows. An answer comes with the number of steps that the server has
    made by then. -/
inductive Outcome (β : Type*) where
  | waiting
  | answered (b : β) (moment : ℕ)
  | gaveUp

/-- A call, with the number of steps that the server had made when it began. -/
structure Call (α β : Type*) where
  request : α
  sentAt : ℕ
  wire : Wire β
  outcome : Outcome β

/-- The server, the calls by their numbers, and the steps of the server, the first one
    first. -/
structure World (σ ε α β : Type*) where
  state : σ
  calls : ℕ → Option (Call α β)
  steps : List (ServerStep ε α)

/-- A step of the network, of a client or of the server. -/
inductive Action (ε α : Type*) where
  | send (id : ℕ) (a : α)
  | execute (id : ℕ)
  | resend (id : ℕ)
  | receive (id : ℕ)
  | lose (id : ℕ)
  | giveUp (id : ℕ)
  | env (e : ε)

variable {σ ε α β : Type*} (S : Service σ ε α β)

namespace World

/-- Nothing has been sent. -/
def start (init : σ) : World σ ε α β := ⟨init, fun _ => none, []⟩

/-- Call `id` is now `c`. -/
def put (w : World σ ε α β) (id : ℕ) (c : Call α β) : World σ ε α β :=
  { w with calls := Function.update w.calls id (some c) }

theorem put_self (w : World σ ε α β) (id : ℕ) (c : Call α β) : (w.put id c).calls id = some c :=
  Function.update_self _ _ _

theorem put_ne (w : World σ ε α β) {id id' : ℕ} (h : id' ≠ id) (c : Call α β) :
    (w.put id c).calls id' = w.calls id' := Function.update_of_ne h _ _

/-- The server has executed call `id`, or has bounced it. -/
def executed (w : World σ ε α β) (id : ℕ) (c : Call α β) : World σ ε α β :=
  let (state, b) := S.exec w.state c.request
  { w.put id { c with wire := .reply b } with
    state
    steps := if S.bounces b then w.steps else w.steps ++ [.exec id c.request] }

/-- One step. -/
def step (w : World σ ε α β) : Action ε α → Option (World σ ε α β)
  | .send id a =>
    if (w.calls id).isNone then some (w.put id ⟨a, w.steps.length, .request, .waiting⟩) else none
  | .execute id => (w.calls id).bind fun c =>
    match c.wire with
    | .request => some (w.executed S id c)
    | _ => none
  | .resend id => (w.calls id).bind fun c =>
    match c.wire, c.outcome with
    | .reply b, .waiting =>
      if S.bounces b then some (w.put id { c with wire := .request }) else none
    | _, _ => none
  | .receive id => (w.calls id).bind fun c =>
    match c.wire, c.outcome with
    | .reply b, .waiting =>
      some (w.put id { c with wire := .silent, outcome := .answered b w.steps.length })
    | _, _ => none
  | .lose id => (w.calls id).map fun c => w.put id { c with wire := .silent }
  | .giveUp id => (w.calls id).bind fun c =>
    match c.outcome with
    | .waiting => some (w.put id { c with outcome := .gaveUp })
    | _ => none
  | .env e => some { w with state := S.env w.state e, steps := w.steps ++ [.env e] }

end World

/-- Any interleaving of the calls, the network and the server. -/
def system (init : σ) : TransitionSystem (World σ ε α β) (Action ε α) :=
  ⟨World.start init, World.step S⟩

/-! ## Sequential runs of the server -/

/-- The effect of one step of the server. -/
def apply (s : σ) : ServerStep ε α → σ
  | .env e => S.env s e
  | .exec _ a => (S.exec s a).1

/-- The server after some of its steps. -/
def after (s : σ) (steps : List (ServerStep ε α)) : σ := steps.foldl (apply S) s

/-- The calls that have taken effect. -/
def executedIds (steps : List (ServerStep ε α)) : List ℕ :=
  steps.filterMap fun
    | .env _ => none
    | .exec id _ => some id

/-- Step `n` of a sequential run executes request `a` of call `id`, and its reply is `b`. -/
def ExecutedAt (init : σ) (steps : List (ServerStep ε α)) (id : ℕ) (a : α) (n : ℕ) (b : β) : Prop :=
  ∃ pre post, steps = pre ++ .exec id a :: post ∧ pre.length = n ∧
    b = (S.exec (after S init pre) a).2

variable {S} {init : σ} {steps : List (ServerStep ε α)} {id : ℕ} {a : α} {n : ℕ} {b : β}

theorem after_concat (s : σ) (steps : List (ServerStep ε α)) (op : ServerStep ε α) :
    after S s (steps ++ [op]) = apply S (after S s steps) op := by
  rw [after, List.foldl_append]
  rfl

theorem executedIds_env (steps : List (ServerStep ε α)) (e : ε) :
    executedIds (steps ++ [.env e]) = executedIds steps := by
  rw [executedIds, List.filterMap_append]
  exact List.append_nil _

theorem executedIds_exec (steps : List (ServerStep ε α)) (id : ℕ) (a : α) :
    executedIds (steps ++ [.exec id a]) = executedIds steps ++ [id] := by
  rw [executedIds, List.filterMap_append]
  rfl

theorem mem_executedIds {pre post : List (ServerStep ε α)} (h : steps = pre ++ .exec id a :: post) :
    id ∈ executedIds steps := by
  rw [h, executedIds, List.filterMap_append]
  exact List.mem_append_right _ List.mem_cons_self

theorem ExecutedAt.append (h : ExecutedAt S init steps id a n b) (more : List (ServerStep ε α)) :
    ExecutedAt S init (steps ++ more) id a n b := by
  obtain ⟨pre, post, rfl, hn, hb⟩ := h
  exact ⟨pre, post ++ more, by rw [List.append_assoc, List.cons_append], hn, hb⟩

theorem executedAt_concat (steps : List (ServerStep ε α)) (id : ℕ) (a : α) :
    ExecutedAt S init (steps ++ [.exec id a]) id a steps.length
      (S.exec (after S init steps) a).2 := ⟨steps, [], rfl, rfl, rfl⟩

/-! ## Steps -/

/-- What a step can do. -/
inductive Move (S : Service σ ε α β) (w : World σ ε α β) :
    Action ε α → World σ ε α β → Prop where
  | send (id : ℕ) (a : α) (hid : w.calls id = none) :
      Move S w (.send id a) (w.put id ⟨a, w.steps.length, .request, .waiting⟩)
  | execute (id : ℕ) (c : Call α β) (hid : w.calls id = some c) (hw : c.wire = .request) :
      Move S w (.execute id) (w.executed S id c)
  | resend (id : ℕ) (c : Call α β) (b : β) (hid : w.calls id = some c) (hw : c.wire = .reply b)
      (ho : c.outcome = .waiting) (hb : S.bounces b = true) :
      Move S w (.resend id) (w.put id { c with wire := .request })
  | receive (id : ℕ) (c : Call α β) (b : β) (hid : w.calls id = some c) (hw : c.wire = .reply b)
      (ho : c.outcome = .waiting) : Move S w (.receive id)
        (w.put id { c with wire := .silent, outcome := .answered b w.steps.length })
  | lose (id : ℕ) (c : Call α β) (hid : w.calls id = some c) :
      Move S w (.lose id) (w.put id { c with wire := .silent })
  | giveUp (id : ℕ) (c : Call α β) (hid : w.calls id = some c) (ho : c.outcome = .waiting) :
      Move S w (.giveUp id) (w.put id { c with outcome := .gaveUp })
  | env (e : ε) :
      Move S w (.env e) { w with state := S.env w.state e, steps := w.steps ++ [.env e] }

theorem move_of_step {w w' : World σ ε α β} {act : Action ε α} (h : w.step S act = some w') :
    Move S w act w' := by
  cases act with
  | send id a =>
    simp only [World.step] at h
    split_ifs at h with hid
    obtain rfl := Option.some.inj h
    exact .send id a (Option.isNone_iff_eq_none.mp hid)
  | execute id =>
    obtain ⟨c, hid, h⟩ := Option.bind_eq_some_iff.mp h
    cases hw : c.wire with
    | request =>
      simp only [hw] at h
      obtain rfl := Option.some.inj h
      exact .execute id c hid hw
    | reply b => simp [hw] at h
    | silent => simp [hw] at h
  | resend id =>
    obtain ⟨c, hid, h⟩ := Option.bind_eq_some_iff.mp h
    split at h
    · rename_i b hw ho
      split_ifs at h with hb
      obtain rfl := Option.some.inj h
      exact .resend id c b hid hw ho hb
    · cases h
  | receive id =>
    obtain ⟨c, hid, h⟩ := Option.bind_eq_some_iff.mp h
    split at h
    · rename_i b hw ho
      obtain rfl := Option.some.inj h
      exact .receive id c b hid hw ho
    · cases h
  | lose id =>
    obtain ⟨c, hid, rfl⟩ := Option.map_eq_some_iff.mp h
    exact .lose id c hid
  | giveUp id =>
    obtain ⟨c, hid, h⟩ := Option.bind_eq_some_iff.mp h
    split at h
    · rename_i ho
      obtain rfl := Option.some.inj h
      exact .giveUp id c hid ho
    · cases h
  | env e =>
    obtain rfl := Option.some.inj h
    exact .env e

/-- A call that is changed stays the call of its request; a new one has been sent. -/
theorem Move.request_eq {w w' : World σ ε α β} {act : Action ε α} (h : Move S w act w') {id : ℕ}
    {c : Call α β} (hc : w'.calls id = some c) :
    act = .send id c.request ∨ ∃ c', w.calls id = some c' ∧ c'.request = c.request := by
  have hput : ∀ id' c', (w.put id' c').calls id = some c →
      id = id' ∧ c' = c ∨ w.calls id = some c := by
    intro id' c' hc
    by_cases hne : id = id'
    · subst hne
      exact Or.inl ⟨rfl, Option.some.inj ((w.put_self id c').symm.trans hc)⟩
    · exact Or.inr ((w.put_ne hne c').symm.trans hc)
  have hkept : ∀ id' c₀ c₁, w.calls id' = some c₀ →
      (w.put id' c₁).calls id = some c → c₀.request = c₁.request →
      ∃ c', w.calls id = some c' ∧ c'.request = c.request := by
    intro id' c₀ c₁ hid hc hreq
    rcases hput id' c₁ hc with ⟨rfl, rfl⟩ | hold
    · exact ⟨c₀, hid, hreq⟩
    · exact ⟨c, hold, rfl⟩
  cases h with
  | send id' a hid =>
    rcases hput _ _ hc with ⟨rfl, rfl⟩ | hold
    · exact Or.inl rfl
    · exact Or.inr ⟨c, hold, rfl⟩
  | execute id' c' hid hw => exact Or.inr (hkept id' c' _ hid hc rfl)
  | resend id' c' b hid hw ho hb => exact Or.inr (hkept id' c' _ hid hc rfl)
  | receive id' c' b hid hw ho => exact Or.inr (hkept id' c' _ hid hc rfl)
  | lose id' c' hid => exact Or.inr (hkept id' c' _ hid hc rfl)
  | giveUp id' c' hid ho => exact Or.inr (hkept id' c' _ hid hc rfl)
  | env e => exact Or.inr ⟨c, hc, rfl⟩

/-- A call keeps its request, and its answer once it has one. -/
theorem Move.kept {w w' : World σ ε α β} {act : Action ε α} (h : Move S w act w') {id : ℕ}
    {c : Call α β} (hc : w.calls id = some c) :
    ∃ c', w'.calls id = some c' ∧ c'.request = c.request ∧
      ∀ b m, c.outcome = .answered b m → c'.outcome = .answered b m := by
  have hput : ∀ {id' c₀ c₁}, w.calls id' = some c₀ → c₁.request = c₀.request →
      (∀ b m, c₀.outcome = .answered b m → c₁.outcome = .answered b m) →
      ∃ c', (w.put id' c₁).calls id = some c' ∧ c'.request = c.request ∧
        ∀ b m, c.outcome = .answered b m → c'.outcome = .answered b m := by
    intro id' c₀ c₁ hid hreq hans
    by_cases hne : id = id'
    · subst hne
      obtain rfl := Option.some.inj (hid.symm.trans hc)
      exact ⟨c₁, w.put_self id c₁, hreq, hans⟩
    · exact ⟨c, (w.put_ne hne c₁).trans hc, rfl, fun _ _ ho => ho⟩
  cases h with
  | send id' a hid =>
    have hne : id ≠ id' := by
      rintro rfl
      cases hid.symm.trans hc
    exact ⟨c, (w.put_ne hne _).trans hc, rfl, fun _ _ ho => ho⟩
  | execute id' c' hid hw => exact hput hid rfl fun _ _ ho => ho
  | resend id' c' b hid hw ho hb => exact hput hid rfl fun _ _ ho' => ho'
  | receive id' c' b hid hw ho => exact hput hid rfl fun _ _ ho' => by cases ho.symm.trans ho'
  | lose id' c' hid => exact hput hid rfl fun _ _ ho => ho
  | giveUp id' c' hid ho => exact hput hid rfl fun _ _ ho' => by cases ho.symm.trans ho'
  | env e => exact ⟨c, hc, rfl, fun _ _ ho => ho⟩

/-- A new call has a new number. -/
theorem Move.of_send {w w' : World σ ε α β} {id : ℕ} {a : α} (h : Move S w (.send id a) w') :
    w.calls id = none ∧ ∃ c, w'.calls id = some c ∧ c.request = a := by
  cases h with
  | send id a hid => exact ⟨hid, _, w.put_self id _, rfl⟩

/-! ## What every step keeps -/

variable (S init)

/-- The call has taken effect, with reply `b`, before `moment`, or `b` is a bounce and the
    call has taken no effect. -/
def Explained (steps : List (ServerStep ε α)) (id : ℕ) (c : Call α β) (b : β) (moment : ℕ) : Prop :=
  if S.bounces b then id ∉ executedIds steps
  else ∃ n, c.sentAt ≤ n ∧ n < moment ∧ ExecutedAt S init steps id c.request n b

/-- What is on the way for a call and what its client knows agree with the server. -/
structure CallSound (steps : List (ServerStep ε α)) (id : ℕ) (c : Call α β) : Prop where
  sent : c.sentAt ≤ steps.length
  request : c.wire = .request → id ∉ executedIds steps
  reply : ∀ b, c.wire = .reply b → Explained S init steps id c b steps.length
  answered : ∀ b moment, c.outcome = .answered b moment →
    c.wire = .silent ∧ Explained S init steps id c b moment

/-- The server has made its steps one after another, each call took effect at most once
    and not before it began. -/
structure Sound (w : World σ ε α β) : Prop where
  state : w.state = after S init w.steps
  nodup : (executedIds w.steps).Nodup
  executed : ∀ pre id a post, w.steps = pre ++ .exec id a :: post →
    ∃ c, w.calls id = some c ∧ c.request = a ∧ c.sentAt ≤ pre.length
  calls : ∀ id c, w.calls id = some c → CallSound S init w.steps id c

variable {S init} {c : Call α β} {w w' : World σ ε α β}

theorem Explained.mono {m m' : ℕ} (h : Explained S init steps id c b m) (hm : m ≤ m') :
    Explained S init steps id c b m' := by
  unfold Explained at h ⊢
  split_ifs at h ⊢
  · exact h
  · obtain ⟨n, hsent, hn, he⟩ := h
    exact ⟨n, hsent, Nat.lt_of_lt_of_le hn hm, he⟩

/-- More steps of the server that do not execute the call. -/
theorem Explained.append {m : ℕ} (h : Explained S init steps id c b m)
    {more : List (ServerStep ε α)} (hmore : id ∉ executedIds more) :
    Explained S init (steps ++ more) id c b m := by
  unfold Explained at h ⊢
  split_ifs at h ⊢
  · rw [executedIds, List.filterMap_append]
    exact fun hm => (List.mem_append.mp hm).elim h hmore
  · obtain ⟨n, hsent, hn, he⟩ := h
    exact ⟨n, hsent, hn, he.append more⟩

theorem CallSound.append (h : CallSound S init steps id c) {more : List (ServerStep ε α)}
    (hmore : id ∉ executedIds more) : CallSound S init (steps ++ more) id c where
  sent := by
    rw [List.length_append]
    exact Nat.le_trans h.sent (Nat.le_add_right _ _)
  request hw := by
    rw [executedIds, List.filterMap_append]
    exact fun hm => (List.mem_append.mp hm).elim (h.request hw) hmore
  reply b hw := by
    have hlength : steps.length ≤ (steps ++ more).length := by
      rw [List.length_append]
      exact Nat.le_add_right _ _
    exact ((h.reply b hw).append hmore).mono hlength
  answered b m ho := ⟨(h.answered b m ho).1, (h.answered b m ho).2.append hmore⟩

theorem sound_start : Sound S init (World.start init) where
  state := rfl
  nodup := List.nodup_nil
  executed pre id a post h := by
    exact absurd (congrArg List.length h) (by simp [World.start])
  calls id c h := by cases h

/-- A step that changes one call, without a step of the server. -/
theorem Sound.put (h : Sound S init w) (hc : CallSound S init w.steps id c)
    (hsame : w.calls id = none ∧ id ∉ executedIds w.steps ∨
      ∃ c', w.calls id = some c' ∧ c'.request = c.request ∧ c'.sentAt = c.sentAt) :
    Sound S init (w.put id c) where
  state := h.state
  nodup := h.nodup
  executed pre id' a post hs := by
    obtain ⟨c', hid', hreq, hsent⟩ := h.executed pre id' a post hs
    by_cases hne : id' = id
    · subst hne
      rcases hsame with ⟨hnone, -⟩ | ⟨c'', hc'', hreq', hsent'⟩
      · cases hnone.symm.trans hid'
      · obtain rfl := Option.some.inj (hc''.symm.trans hid')
        exact ⟨c, w.put_self id' c, hreq'.symm.trans hreq, hsent' ▸ hsent⟩
    · exact ⟨c', (w.put_ne hne c).trans hid', hreq, hsent⟩
  calls id' c' hid' := by
    by_cases hne : id' = id
    · subst hne
      obtain rfl := Option.some.inj ((w.put_self id' c).symm.trans hid')
      exact hc
    · exact h.calls id' c' ((w.put_ne hne c).symm.trans hid')

/-- A call that has taken effect is known. -/
theorem Sound.not_executed (h : Sound S init w) (hid : w.calls id = none) :
    id ∉ executedIds w.steps := by
  intro hm
  obtain ⟨op, hop, he⟩ := List.mem_filterMap.mp hm
  cases op with
  | env e => cases he
  | exec id' a =>
    obtain rfl := Option.some.inj he
    obtain ⟨pre, post, hsplit⟩ := List.append_of_mem hop
    obtain ⟨c, hc, -⟩ := h.executed pre id' a post hsplit
    cases hid.symm.trans hc

/-- The last step of a run is the one that was added, or it was there before. -/
theorem split_concat {pre post : List (ServerStep ε α)} {op op' : ServerStep ε α}
    (h : steps ++ [op'] = pre ++ op :: post) :
    (pre = steps ∧ op = op') ∨ ∃ post', steps = pre ++ op :: post' := by
  rcases List.eq_nil_or_concat post with rfl | ⟨post', last, rfl⟩
  · obtain ⟨hpre, hop⟩ := List.append_inj' h rfl
    exact Or.inl ⟨hpre.symm, (List.cons.inj hop).1.symm⟩
  · have hassoc : pre ++ op :: (post' ++ [last]) = (pre ++ op :: post') ++ [last] := by
      rw [List.append_assoc, List.cons_append]
    rw [List.concat_eq_append, hassoc] at h
    exact Or.inr ⟨post', (List.append_inj' h rfl).1⟩

theorem Sound.execute (h : Sound S init w) (hid : w.calls id = some c) (hw : c.wire = .request) :
    Sound S init (w.executed S id c) := by
  have hc := h.calls id c hid
  have hfresh := hc.request hw
  unfold World.executed
  rcases hexec : S.exec w.state c.request with ⟨s, b⟩
  have hnow : ∀ b' m, c.outcome = .answered b' m → False := by
    intro b' m ho
    have := (hc.answered b' m ho).1
    rw [hw] at this
    cases this
  by_cases hb : S.bounces b = true
  · -- A bounce changes nothing at the server.
    have hsame : s = w.state := by
      have := S.of_bounces w.state c.request (by rw [hexec]; exact hb)
      rwa [hexec] at this
    simp only [if_pos hb, hsame]
    have hbounced : CallSound S init w.steps id { c with wire := .reply b } := by
      refine ⟨hc.sent, nofun, ?_, fun b' m ho => (hnow b' m ho).elim⟩
      intro b' hb'
      obtain rfl := Wire.reply.inj hb'
      rw [Explained, if_pos hb]
      exact hfresh
    exact h.put hbounced (Or.inr ⟨c, hid, rfl, rfl⟩)
  · simp only [if_neg hb]
    have hreply : b = (S.exec (after S init w.steps) c.request).2 := by rw [← h.state, hexec]
    refine ⟨?_, ?_, ?_, ?_⟩
    · rw [after_concat, ← h.state, apply, hexec]
    · rw [executedIds_exec]
      apply List.Nodup.append h.nodup (List.nodup_singleton id)
      intro id' hold hnew
      obtain rfl := List.mem_singleton.mp hnew
      exact hfresh hold
    · intro pre id' a post hs
      rcases split_concat hs with ⟨rfl, hop⟩ | ⟨post', hold⟩
      · obtain ⟨rfl, rfl⟩ := ServerStep.exec.inj hop
        exact ⟨_, w.put_self _ _, rfl, hc.sent⟩
      · obtain ⟨c', hid', hreq, hsent⟩ := h.executed pre id' a post' hold
        have hne : id' ≠ id := by
          rintro rfl
          exact hfresh (mem_executedIds hold)
        exact ⟨c', (w.put_ne hne _).trans hid', hreq, hsent⟩
    · intro id' c' hid'
      by_cases hne : id' = id
      · subst hne
        obtain rfl := Option.some.inj ((w.put_self id' _).symm.trans hid')
        refine ⟨?_, nofun, ?_, fun b' m ho => (hnow b' m ho).elim⟩
        · rw [List.length_append]
          exact Nat.le_trans hc.sent (Nat.le_add_right _ _)
        · intro b' hb'
          obtain rfl := Wire.reply.inj hb'
          rw [Explained, if_neg hb, List.length_append]
          refine ⟨w.steps.length, hc.sent, Nat.lt_succ_self _, ?_⟩
          rw [hreply]
          exact executedAt_concat w.steps id' c.request
      · apply (h.calls id' c' ((w.put_ne hne _).symm.trans hid')).append
        intro hm
        exact hne (List.mem_singleton.mp hm)

/-- **Step lemma.** -/
theorem Sound.step (h : Sound S init w) {act : Action ε α} (hm : Move S w act w') : Sound S init w' := by
  cases hm with
  | send id a hid =>
    have hfresh := h.not_executed hid
    refine h.put ⟨Nat.le_refl _, fun _ => hfresh, fun b hb => ?_, fun b m ho => ?_⟩
      (Or.inl ⟨hid, hfresh⟩)
    · cases hb
    · cases ho
  | execute id c hid hw => exact h.execute hid hw
  | resend id c b hid hw ho hb =>
    have hc := h.calls id c hid
    have hfresh : id ∉ executedIds w.steps := by
      have := hc.reply b hw
      rwa [Explained, if_pos hb] at this
    refine h.put ⟨hc.sent, fun _ => hfresh, fun b' hb' => ?_, fun b' m ho' => ?_⟩
      (Or.inr ⟨c, hid, rfl, rfl⟩)
    · cases hb'
    · cases ho.symm.trans ho'
  | receive id c b hid hw ho =>
    have hc := h.calls id c hid
    refine h.put ⟨hc.sent, fun h => ?_, fun b' hb' => ?_, fun b' m ho' => ?_⟩
      (Or.inr ⟨c, hid, rfl, rfl⟩)
    · cases h
    · cases hb'
    · obtain ⟨rfl, rfl⟩ := Outcome.answered.inj ho'
      exact ⟨rfl, hc.reply b hw⟩
  | lose id c hid =>
    have hc := h.calls id c hid
    refine h.put ⟨hc.sent, fun h => ?_, fun b' hb' => ?_, fun b' m ho => ?_⟩
      (Or.inr ⟨c, hid, rfl, rfl⟩)
    · cases h
    · cases hb'
    · exact ⟨rfl, (hc.answered b' m ho).2⟩
  | giveUp id c hid ho =>
    have hc := h.calls id c hid
    refine h.put ⟨hc.sent, hc.request, hc.reply, fun b' m ho' => ?_⟩
      (Or.inr ⟨c, hid, rfl, rfl⟩)
    cases ho'
  | env e =>
    refine ⟨?_, ?_, ?_, ?_⟩
    · rw [after_concat, ← h.state, apply]
    · rw [executedIds_env]
      exact h.nodup
    · intro pre id a post hs
      rcases split_concat hs with ⟨-, hop⟩ | ⟨post', hold⟩
      · cases hop
      · exact h.executed pre id a post' hold
    · intro id c hid
      exact (h.calls id c hid).append List.not_mem_nil

/-- What a run asks for has been sent in it. -/
theorem sent_of_run {as : List (Action ε α)} : ∀ {w : World σ ε α β},
    (system S init).run w as = some w' → w'.calls id = some c →
      Action.send id c.request ∈ as ∨ ∃ c', w.calls id = some c' ∧ c'.request = c.request := by
  induction as with
  | nil =>
    intro w hr hc
    obtain rfl := Option.some.inj hr
    exact Or.inr ⟨c, hc, rfl⟩
  | cons act as ih =>
    intro w hr hc
    obtain ⟨u, hu, hrest⟩ := TransitionSystem.run_cons_eq_some.mp hr
    rcases ih hrest hc with hlater | ⟨c', hc', hreq⟩
    · exact Or.inl (List.mem_cons_of_mem _ hlater)
    · rcases (move_of_step hu).request_eq hc' with rfl | ⟨c'', hc'', hreq'⟩
      · rw [hreq]
        exact Or.inl List.mem_cons_self
      · exact Or.inr ⟨c'', hc'', hreq'.trans hreq⟩

/-- **Run lemma.** -/
theorem sound_of_run {as : List (Action ε α)}
    (hr : (system S init).run (World.start init) as = some w) : Sound S init w :=
  TransitionSystem.run_invariant (M := system S init)
    (fun _ _ _ hs hstep => hs.step (move_of_step hstep)) sound_start hr

end RemoteCalls
