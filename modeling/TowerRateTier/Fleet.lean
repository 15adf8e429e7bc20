import TowerRateTier.Storage.Breaker.Rate
import TowerRateTier.Storage.Redis.Network

/-!
# Instances that share one Redis

Any number of instances, each with a circuit breaker of its own over one Redis. A
call of a breaker that has a route sends its check over the network, and it gets
what its client makes of the outcome: the decision of the script, or an error.

* `Linked.step`: Redis with its network, and each breaker, run as they do alone,
  and a check on the network belongs to at most one call of one breaker.
* `fleet_rate_bound`: what Redis allows of a key and what all the fallbacks admit
  of it, together, through any number of outages.
-/

namespace TowerRateTier.Fleet

open Breaker (Policy)
open Breaker.Interleaving (Rated RatedCalls Timely Ahead charged fallbackOps lossBetween closings
  FallbackOp Task)
open RedisStorage (allowedCost)

/-! ## Model -/

/-- Redis, the network and the checks. -/
abbrev Net := RemoteCalls.World Redis.Host Redis.HostEvent CheckRequest Redis.Answer

/-- What the client makes of the outcome of a check (`redis.rs`, lines 228–235). A reply
    other than that of the script and the timeout are errors. -/
def resultOf (c : RemoteCalls.Call CheckRequest Redis.Answer) (error : StorageError) :
    Option StorageResult :=
  match c.outcome with
  | .waiting => none
  | .answered (.script reply) _ => some (invocationResult reply c.request.quota.maxBurst)
  | .answered .noScript _ => some (.error error)
  | .gaveUp => some (.error error)

/-- The decision of the primary lets the request pass. -/
def Admission : StorageResult → Prop
  | .ok (.ok _) => True
  | _ => False

instance : DecidablePred Admission := fun
  | .ok (.ok _) => .isTrue trivial
  | .ok (.error _) => .isFalse id
  | .error _ => .isFalse id

/-- The instances and Redis. `number` gives for a call of an instance its check on the
    network, and `passed` the checks whose admission an instance has passed on, with
    the requests. `sent` and `history` are the steps so far. -/
structure World (ι : Type) where
  net : Net
  instances : ι → Breaker.Interleaving.World
  number : ι → ℕ → ℕ
  passed : List (ℕ × CheckRequest)
  sent : List (RemoteCalls.Action Redis.HostEvent CheckRequest)
  history : ι → List Breaker.Interleaving.Action

/-- A step of an instance alone, one of an instance and the network, or one of the
    network. -/
inductive Action (ι : Type) where
  | own (i : ι) (a : Breaker.Interleaving.Action)
  | poll (i : ι) (id n : ℕ)
  | answer (i : ι) (id : ℕ) (error : StorageError)
  | network (a : RemoteCalls.Action Redis.HostEvent CheckRequest)

/-- The step does not involve the primary. -/
def Alone : Breaker.Interleaving.Action → Bool
  | .poll _ => false
  | .answer _ _ => false
  | _ => true

/-- The step is not that of a client. -/
def Unasked : RemoteCalls.Action Redis.HostEvent CheckRequest → Bool
  | .send _ _ => false
  | _ => true

variable {ι : Type} [DecidableEq ι] (sha1 : List UInt8 → Digest) (st : RedisStorage)

namespace World

/-- Nothing has been called. -/
def start (host : Redis.Host) (policy : ι → Policy) : World ι where
  net := .start host
  instances i := .start (policy i) .new
  number _ _ := 0
  passed := []
  sent := []
  history _ := []

/-- Instance `i` is now `u`, after its action `a`. -/
def acted (w : World ι) (i : ι) (a : Breaker.Interleaving.Action)
    (u : Breaker.Interleaving.World) : World ι :=
  { w with
    instances := Function.update w.instances i u
    history := Function.update w.history i (w.history i ++ [a]) }

/-- The first poll of a call, up to the check on the network. -/
def polled (w : World ι) (i : ι) (id n : ℕ) (r : CheckRequest) (u : Breaker.Interleaving.World)
    (v : Net) : World ι :=
  { w.acted i (.poll id) u with
    net := v
    sent := w.sent ++ [.send n r]
    number := Function.update w.number i (Function.update (w.number i) id n) }

/-- The answer of the primary to a call. -/
def answered (w : World ι) (i : ι) (id : ℕ) (r : CheckRequest) (result : StorageResult)
    (u : Breaker.Interleaving.World) : World ι :=
  { w.acted i (.answer id result) u with
    passed := if Admission result then w.passed ++ [(w.number i id, r)] else w.passed }

/-- One step. -/
def step (w : World ι) : Action ι → Option (World ι)
  | .own i a =>
    if Alone a then ((w.instances i).step a).map (w.acted i a) else none
  | .poll i id n => ((w.instances i).tasks id).bind fun t =>
    ((w.instances i).step (.poll id)).bind fun u =>
      (w.net.step (st.service sha1) (.send n t.request)).map (w.polled i id n t.request u)
  | .answer i id error => ((w.instances i).tasks id).bind fun t =>
    (w.net.calls (w.number i id)).bind fun c => (resultOf c error).bind fun result =>
      ((w.instances i).step (.answer id result)).map (w.answered i id t.request result)
  | .network a =>
    if Unasked a then
      (w.net.step (st.service sha1) a).map fun v => { w with net := v, sent := w.sent ++ [a] }
    else none

end World

/-- Any interleaving of the instances, the network and Redis. -/
def system (host : Redis.Host) (policy : ι → Policy) : TransitionSystem (World ι) (Action ι) :=
  ⟨World.start host policy, World.step sha1 st⟩

/-! ## Steps -/

variable {sha1 st} {w w' : World ι}

/-- What a step can do. -/
inductive Move (sha1 : List UInt8 → Digest) (st : RedisStorage) (w : World ι) :
    Action ι → World ι → Prop where
  | own (i : ι) (a : Breaker.Interleaving.Action) (u : Breaker.Interleaving.World)
      (ha : Alone a = true) (hu : (w.instances i).step a = some u) :
      Move sha1 st w (.own i a) (w.acted i a u)
  | poll (i : ι) (id n : ℕ) (t : Task) (u : Breaker.Interleaving.World) (v : Net)
      (ht : (w.instances i).tasks id = some t) (hu : (w.instances i).step (.poll id) = some u)
      (hv : w.net.step (st.service sha1) (.send n t.request) = some v) :
      Move sha1 st w (.poll i id n) (w.polled i id n t.request u v)
  | answer (i : ι) (id : ℕ) (error : StorageError) (t : Task)
      (c : RemoteCalls.Call CheckRequest Redis.Answer) (result : StorageResult)
      (u : Breaker.Interleaving.World) (ht : (w.instances i).tasks id = some t)
      (hc : w.net.calls (w.number i id) = some c) (hresult : resultOf c error = some result)
      (hu : (w.instances i).step (.answer id result) = some u) :
      Move sha1 st w (.answer i id error) (w.answered i id t.request result u)
  | network (a : RemoteCalls.Action Redis.HostEvent CheckRequest) (v : Net)
      (ha : Unasked a = true) (hv : w.net.step (st.service sha1) a = some v) :
      Move sha1 st w (.network a) { w with net := v, sent := w.sent ++ [a] }

theorem move_of_step {a : Action ι} (h : w.step sha1 st a = some w') : Move sha1 st w a w' := by
  cases a with
  | own i a =>
    rw [World.step, Option.ite_none_right_eq_some] at h
    obtain ⟨u, hu, rfl⟩ := Option.map_eq_some_iff.mp h.2
    exact .own i a u h.1 hu
  | poll i id n =>
    obtain ⟨t, ht, h⟩ := Option.bind_eq_some_iff.mp h
    obtain ⟨u, hu, h⟩ := Option.bind_eq_some_iff.mp h
    obtain ⟨v, hv, rfl⟩ := Option.map_eq_some_iff.mp h
    exact .poll i id n t u v ht hu hv
  | answer i id error =>
    obtain ⟨t, ht, h⟩ := Option.bind_eq_some_iff.mp h
    obtain ⟨c, hc, h⟩ := Option.bind_eq_some_iff.mp h
    obtain ⟨result, hresult, h⟩ := Option.bind_eq_some_iff.mp h
    obtain ⟨u, hu, rfl⟩ := Option.map_eq_some_iff.mp h
    exact .answer i id error t c result u ht hc hresult hu
  | network a =>
    rw [World.step, Option.ite_none_right_eq_some] at h
    obtain ⟨v, hv, rfl⟩ := Option.map_eq_some_iff.mp h.2
    exact .network a v h.1 hv

/-! ## The calls that wait for Redis -/

/-- The call waits for the answer of the primary. -/
def Waits (u : Breaker.Interleaving.World) (id : ℕ) (t : Task) : Prop :=
  u.tasks id = some t ∧ ∃ route, t.phase = .waiting route

/-- A step that changes one call and does not leave it waiting. -/
theorem waits_update {u : Breaker.Interleaving.World} {i id : ℕ} {new : Option Task} {t : Task}
    (hnew : ∀ t route, new = some t → t.phase ≠ .waiting route)
    (h : Function.update u.tasks i new id = some t) (hwait : ∃ route, t.phase = .waiting route) :
    id ≠ i ∧ Waits u id t := by
  obtain ⟨route, hroute⟩ := hwait
  have hne : id ≠ i := by
    rintro rfl
    rw [Function.update_self] at h
    exact hnew t route h hroute
  rw [Function.update_of_ne hne] at h
  exact ⟨hne, h, route, hroute⟩

/-- Only a poll lets a call wait, and an answered call does not wait any more. -/
theorem waits_step {u u' : Breaker.Interleaving.World} {a : Breaker.Interleaving.Action} {id : ℕ}
    {t : Task} (hs : u.step a = some u') (h : Waits u' id t) :
    (Waits u id t ∧ ∀ result, a ≠ .answer id result) ∨
      a = .poll id ∧ ∃ t', u.tasks id = some t' ∧ t'.request = t.request := by
  obtain ⟨htask, hwait⟩ := h
  cases a with
  | call id' r =>
    obtain ⟨-, rfl⟩ := Breaker.Interleaving.step_call hs
    refine Or.inl ⟨(waits_update (fun t route ht => ?_) htask hwait).2, nofun⟩
    obtain rfl := Option.some.inj ht
    dsimp only
    split <;> simp
  | poll id' =>
    obtain ⟨t', route, ht', -, rfl⟩ := Breaker.Interleaving.step_poll hs
    by_cases hid : id = id'
    · subst hid
      obtain rfl := Option.some.inj ((Function.update_self id _ u.tasks).symm.trans htask)
      exact Or.inr ⟨rfl, t', ht', rfl⟩
    · exact Or.inl ⟨⟨(Function.update_of_ne hid _ u.tasks).symm.trans htask, hwait⟩, nofun⟩
  | answer id' result =>
    obtain ⟨t', route, -, -, rfl⟩ := Breaker.Interleaving.step_answer hs
    obtain ⟨hne, hold⟩ := waits_update (fun t route ht => by
      obtain rfl := Option.some.inj ht
      simp) htask hwait
    refine Or.inl ⟨hold, fun result' heq => ?_⟩
    exact hne (Breaker.Interleaving.Action.answer.inj heq).1.symm
  | perform id' =>
    obtain ⟨t', e, es, -, -, rfl⟩ := Breaker.Interleaving.step_perform_iff.mp hs
    refine Or.inl ⟨(waits_update (fun t route ht => ?_) htask hwait).2, nofun⟩
    obtain rfl := Option.some.inj ht
    simp
  | finish id' =>
    obtain ⟨t', -, -, rfl⟩ := Breaker.Interleaving.step_finish hs
    exact Or.inl ⟨(waits_update (fun t route ht => by simp at ht) htask hwait).2, nofun⟩
  | drop id' =>
    obtain ⟨t', route, -, -, rfl⟩ := Breaker.Interleaving.step_drop hs
    exact Or.inl ⟨(waits_update (fun t route ht => by simp at ht) htask hwait).2, nofun⟩

/-- The same for the instances. -/
theorem waits_acted {i j : ι} {a : Breaker.Interleaving.Action} {u : Breaker.Interleaving.World}
    (hu : (w.instances i).step a = some u) {id : ℕ} {t : Task}
    (h : Waits ((w.acted i a u).instances j) id t) :
    (Waits (w.instances j) id t ∧ ∀ result, a = .answer id result → j ≠ i) ∨
      j = i ∧ a = .poll id ∧ ∃ t', (w.instances i).tasks id = some t' ∧ t'.request = t.request := by
  have h' : Waits (Function.update w.instances i u j) id t := h
  by_cases hj : j = i
  · subst hj
    rw [Function.update_self] at h'
    rcases waits_step hu h' with ⟨hold, hne⟩ | hpoll
    · exact Or.inl ⟨hold, fun result ha => absurd ha (hne result)⟩
    · exact Or.inr ⟨rfl, hpoll⟩
  · rw [Function.update_of_ne hj] at h'
    exact Or.inl ⟨h', fun _ _ => hj⟩

/-! ## What every step keeps -/

/-- The checks that calls wait for are on the network, each for one call only, and none
    of them has been passed on. -/
structure Pending (w : World ι) : Prop where
  known : ∀ i id t, Waits (w.instances i) id t →
    ∃ c, w.net.calls (w.number i id) = some c ∧ c.request = t.request
  fresh : ∀ i id t, Waits (w.instances i) id t → w.number i id ∉ w.passed.map Prod.fst
  distinct : ∀ i id t j id' t', Waits (w.instances i) id t → Waits (w.instances j) id' t' →
    w.number i id = w.number j id' → i = j ∧ id = id'

/-- What has been passed on is an admission by the script, each one once. -/
structure PassedOn (w : World ι) : Prop where
  nodup : (w.passed.map Prod.fst).Nodup
  admitted : ∀ n r, (n, r) ∈ w.passed → ∃ c reply moment, w.net.calls n = some c ∧
    c.request = r ∧ c.outcome = .answered (.script (.ok reply)) moment ∧ reply.allowed = 1

/-- The network and the breakers run as they do alone. -/
structure Linked (sha1 : List UInt8 → Digest) (st : RedisStorage) (host : Redis.Host)
    (policy : ι → Policy) (w : World ι) : Prop where
  net : (st.network sha1 host).run (.start host) w.sent = some w.net
  instances : ∀ i, (Breaker.Interleaving.system (policy i) .new).run (.start (policy i) .new)
    (w.history i) = some (w.instances i)
  pending : Pending w
  passed : PassedOn w

variable {host : Redis.Host} {policy : ι → Policy}

omit [DecidableEq ι] in
/-- The checks go on, and no call waits for another one. -/
theorem Pending.of_kept (h : Pending w) (hnumber : w'.number = w.number)
    (hwaits : ∀ i id t, Waits (w'.instances i) id t → Waits (w.instances i) id t)
    (hnet : ∀ n c, w.net.calls n = some c → ∃ c', w'.net.calls n = some c' ∧
      c'.request = c.request)
    (hfresh : ∀ i id t, Waits (w'.instances i) id t →
      w.number i id ∉ w'.passed.map Prod.fst) : Pending w' where
  known i id t ht := by
    obtain ⟨c, hc, hreq⟩ := h.known i id t (hwaits i id t ht)
    obtain ⟨c', hc', hreq'⟩ := hnet _ c hc
    rw [hnumber]
    exact ⟨c', hc', hreq'.trans hreq⟩
  fresh i id t ht := by
    rw [hnumber]
    exact hfresh i id t ht
  distinct i id t j id' t' ht ht' := by
    rw [hnumber]
    exact h.distinct i id t j id' t' (hwaits i id t ht) (hwaits j id' t' ht')

omit [DecidableEq ι] in
/-- The answers stay. -/
theorem PassedOn.of_kept (h : PassedOn w) (hpassed : w'.passed = w.passed)
    (hnet : ∀ n c, w.net.calls n = some c → ∃ c', w'.net.calls n = some c' ∧
      c'.request = c.request ∧
        ∀ b m, c.outcome = .answered b m → c'.outcome = .answered b m) : PassedOn w' where
  nodup := by
    rw [hpassed]
    exact h.nodup
  admitted n r hn := by
    rw [hpassed] at hn
    obtain ⟨c, reply, moment, hc, hreq, hout, hok⟩ := h.admitted n r hn
    obtain ⟨c', hc', hreq', hout'⟩ := hnet n c hc
    exact ⟨c', reply, moment, hc', hreq'.trans hreq, hout' _ _ hout, hok⟩

omit [DecidableEq ι] in
/-- What has been passed on is known. -/
theorem PassedOn.not_mem (h : PassedOn w) {n : ℕ} (hn : w.net.calls n = none) :
    n ∉ w.passed.map Prod.fst := by
  intro hmem
  obtain ⟨⟨n, r⟩, hx, rfl⟩ := List.mem_map.mp hmem
  obtain ⟨c, -, -, hc, -⟩ := h.admitted n r hx
  rw [hn] at hc
  simp at hc

/-- An instance that makes a step goes on with its run. -/
theorem runs_acted {i : ι} {a : Breaker.Interleaving.Action} {u : Breaker.Interleaving.World}
    (h : ∀ j, (Breaker.Interleaving.system (policy j) .new).run (.start (policy j) .new)
      (w.history j) = some (w.instances j))
    (hu : (w.instances i).step a = some u) (j : ι) :
    (Breaker.Interleaving.system (policy j) .new).run (.start (policy j) .new)
      ((w.acted i a u).history j) = some ((w.acted i a u).instances j) := by
  show (Breaker.Interleaving.system (policy j) .new).run (.start (policy j) .new)
    (Function.update w.history i (w.history i ++ [a]) j) = some (Function.update w.instances i u j)
  by_cases hj : j = i
  · subst hj
    rw [Function.update_self, Function.update_self]
    exact TransitionSystem.run_concat (h j) hu
  · rw [Function.update_of_ne hj, Function.update_of_ne hj]
    exact h j

/-- A decision that lets a request pass is the admission by the script. -/
theorem answered_of_admission {c : RemoteCalls.Call CheckRequest Redis.Answer}
    {error : StorageError} {result : StorageResult} (h : resultOf c error = some result)
    (hpass : Admission result) : ∃ reply moment,
      c.outcome = .answered (.script (.ok reply)) moment ∧ reply.allowed = 1 := by
  unfold resultOf at h
  split at h
  · simp at h
  · rename_i reply moment hout
    obtain rfl := Option.some.inj h
    cases reply with
    | error err => exact hpass.elim
    | ok reply =>
      refine ⟨reply, moment, hout, ?_⟩
      by_contra hne
      rw [invocationResult, decodeReply, if_neg hne] at hpass
      exact hpass
  · obtain rfl := Option.some.inj h
    exact hpass.elim
  · obtain rfl := Option.some.inj h
    exact hpass.elim

/-- The call that is polled waits for a new check. -/
theorem waits_polled {i j : ι} {id n id' : ℕ} {t t' : Task} {u : Breaker.Interleaving.World}
    {v : Net} (ht : (w.instances i).tasks id = some t)
    (hu : (w.instances i).step (.poll id) = some u)
    (h : Waits ((w.polled i id n t.request u v).instances j) id' t') :
    (Waits (w.instances j) id' t' ∧
        (w.polled i id n t.request u v).number j id' = w.number j id') ∨
      j = i ∧ id' = id ∧ t'.request = t.request := by
  rcases waits_acted hu h with ⟨hold, -⟩ | ⟨rfl, hpoll, t'', ht'', hreq⟩
  · refine Or.inl ⟨hold, ?_⟩
    show Function.update w.number i (Function.update (w.number i) id n) j id' = _
    by_cases hj : j = i
    · subst hj
      have hne : id' ≠ id := by
        rintro rfl
        obtain ⟨t₀, route, ht₀, hphase, -⟩ := Breaker.Interleaving.step_poll hu
        obtain ⟨ht', route', hphase'⟩ := hold
        obtain rfl := Option.some.inj (ht₀.symm.trans ht')
        rw [hphase] at hphase'
        simp at hphase'
      rw [Function.update_self, Function.update_of_ne hne]
    · rw [Function.update_of_ne hj]
  · obtain rfl := Breaker.Interleaving.Action.poll.inj hpoll
    obtain rfl := Option.some.inj (ht.symm.trans ht'')
    exact Or.inr ⟨rfl, rfl, hreq.symm⟩

theorem Pending.polled (h : Pending w) {i : ι} {id n : ℕ} {t : Task}
    {u : Breaker.Interleaving.World} {v : Net} (ht : (w.instances i).tasks id = some t)
    (hu : (w.instances i).step (.poll id) = some u)
    (hmove : RemoteCalls.Move (st.service sha1) w.net (.send n t.request) v)
    (hnew : n ∉ w.passed.map Prod.fst) :
    Pending (w.polled i id n t.request u v) := by
  obtain ⟨hnone, c, hc, hreq⟩ := hmove.of_send
  have hself : (w.polled i id n t.request u v).number i id = n := by
    show Function.update w.number i (Function.update (w.number i) id n) i id = n
    rw [Function.update_self, Function.update_self]
  -- The checks that other calls wait for are known, so that they are not the new one.
  have hother : ∀ j id' t', Waits (w.instances j) id' t' → w.number j id' ≠ n := by
    intro j id' t' hwait heq
    obtain ⟨c', hc', -⟩ := h.known j id' t' hwait
    rw [heq, hnone] at hc'
    simp at hc'
  refine ⟨fun j id' t' hwait => ?_, fun j id' t' hwait => ?_,
    fun j id₁ t₁ j' id₂ t₂ hwait₁ hwait₂ heq => ?_⟩
  · rcases waits_polled ht hu hwait with ⟨hold, hnumber⟩ | ⟨rfl, rfl, hsame⟩
    · obtain ⟨c', hc', hreq'⟩ := h.known j id' t' hold
      obtain ⟨c'', hc'', hreq'', -⟩ := hmove.kept hc'
      rw [hnumber]
      exact ⟨c'', hc'', hreq''.trans hreq'⟩
    · rw [hself]
      exact ⟨c, hc, hreq.trans hsame.symm⟩
  · rcases waits_polled ht hu hwait with ⟨hold, hnumber⟩ | ⟨rfl, rfl, -⟩
    · rw [hnumber]
      exact h.fresh j id' t' hold
    · rw [hself]
      exact hnew
  · rcases waits_polled ht hu hwait₁ with ⟨hold₁, hnumber₁⟩ | ⟨rfl, rfl, -⟩
    · rcases waits_polled ht hu hwait₂ with ⟨hold₂, hnumber₂⟩ | ⟨rfl, rfl, -⟩
      · rw [hnumber₁, hnumber₂] at heq
        exact h.distinct j id₁ t₁ j' id₂ t₂ hold₁ hold₂ heq
      · rw [hnumber₁, hself] at heq
        exact absurd heq (hother j id₁ t₁ hold₁)
    · rcases waits_polled ht hu hwait₂ with ⟨hold₂, hnumber₂⟩ | ⟨rfl, rfl, -⟩
      · rw [hnumber₂, hself] at heq
        exact absurd heq.symm (hother j' id₂ t₂ hold₂)
      · exact ⟨rfl, rfl⟩

/-- The call that is answered does not wait any more. -/
theorem waits_answered {i j : ι} {id id' : ℕ} {t' : Task} {r : CheckRequest}
    {result : StorageResult} {u : Breaker.Interleaving.World}
    (hu : (w.instances i).step (.answer id result) = some u)
    (h : Waits ((w.answered i id r result u).instances j) id' t') :
    Waits (w.instances j) id' t' ∧ ¬ (j = i ∧ id' = id) := by
  rcases waits_acted hu h with ⟨hold, hne⟩ | ⟨-, hpoll, -⟩
  · refine ⟨hold, ?_⟩
    rintro ⟨rfl, rfl⟩
    exact hne result rfl rfl
  · simp at hpoll

theorem mem_passed_answered {i : ι} {id : ℕ} {r : CheckRequest} {result : StorageResult}
    {u : Breaker.Interleaving.World} {x : ℕ × CheckRequest}
    (h : x ∈ (w.answered i id r result u).passed) :
    x ∈ w.passed ∨ x = (w.number i id, r) ∧ Admission result := by
  have h' : x ∈ if Admission result then w.passed ++ [(w.number i id, r)] else w.passed := h
  split_ifs at h' with hpass
  · rcases List.mem_append.mp h' with hold | hnew
    · exact Or.inl hold
    · exact Or.inr ⟨List.mem_singleton.mp hnew, hpass⟩
  · exact Or.inl h'

theorem Pending.answered (h : Pending w) {i : ι} {id : ℕ} {t : Task} {result : StorageResult}
    {u : Breaker.Interleaving.World} (hwait : Waits (w.instances i) id t)
    (hu : (w.instances i).step (.answer id result) = some u) :
    Pending (w.answered i id t.request result u) := by
  refine h.of_kept rfl (fun j id' t' ht => (waits_answered hu ht).1)
    (fun n c hc => ⟨c, hc, rfl⟩) fun j id' t' ht hmem => ?_
  obtain ⟨hold, hne⟩ := waits_answered hu ht
  obtain ⟨x, hx, hnumber⟩ := List.mem_map.mp hmem
  rcases mem_passed_answered hx with hpassed | ⟨rfl, -⟩
  · exact h.fresh j id' t' hold (List.mem_map.mpr ⟨x, hpassed, hnumber⟩)
  · exact hne (h.distinct j id' t' i id t hold hwait hnumber.symm)

theorem PassedOn.answered (h : PassedOn w) (hpending : Pending w) {i : ι} {id : ℕ} {t : Task}
    {c : RemoteCalls.Call CheckRequest Redis.Answer} {error : StorageError}
    {result : StorageResult} {u : Breaker.Interleaving.World}
    (hwait : Waits (w.instances i) id t) (hc : w.net.calls (w.number i id) = some c)
    (hresult : resultOf c error = some result) :
    PassedOn (w.answered i id t.request result u) := by
  have hreq : c.request = t.request := by
    obtain ⟨c', hc', hreq⟩ := hpending.known i id t hwait
    obtain rfl := Option.some.inj (hc.symm.trans hc')
    exact hreq
  constructor
  · show (List.map Prod.fst (if Admission result then w.passed ++ [(w.number i id, t.request)]
      else w.passed)).Nodup
    split_ifs
    · rw [List.map_append, List.map_singleton]
      apply List.Nodup.append h.nodup (List.nodup_singleton _)
      intro n hold hnew
      obtain rfl := List.mem_singleton.mp hnew
      exact hpending.fresh i id t hwait hold
    · exact h.nodup
  · intro n r hn
    rcases mem_passed_answered hn with hold | ⟨heq, hpass⟩
    · exact h.admitted n r hold
    · obtain ⟨rfl, rfl⟩ := Prod.mk.inj heq
      obtain ⟨reply, moment, hout, hok⟩ := answered_of_admission hresult hpass
      exact ⟨c, reply, moment, hc, hreq, hout, hok⟩

omit [DecidableEq ι] in
theorem linked_start (sha1 : List UInt8 → Digest) (st : RedisStorage) (host : Redis.Host)
    (policy : ι → Policy) : Linked sha1 st host policy (.start host policy) where
  net := rfl
  instances _ := rfl
  pending := ⟨fun _ _ _ h => by simp [Waits, World.start, Breaker.Interleaving.World.start] at h,
    fun _ _ _ _ => List.not_mem_nil,
    fun _ _ _ _ _ _ h => by simp [Waits, World.start, Breaker.Interleaving.World.start] at h⟩
  passed := ⟨List.nodup_nil, fun _ _ h => absurd h List.not_mem_nil⟩

/-- **Step lemma.** -/
theorem Linked.step (h : Linked sha1 st host policy w) {a : Action ι} (hm : Move sha1 st w a w') :
    Linked sha1 st host policy w' := by
  cases hm with
  | own i a u ha hu =>
    have hwaits : ∀ j id t, Waits ((w.acted i a u).instances j) id t →
        Waits (w.instances j) id t := by
      intro j id t ht
      rcases waits_acted hu ht with ⟨hold, -⟩ | ⟨-, rfl, -⟩
      · exact hold
      · simp [Alone] at ha
    have hpending : Pending (w.acted i a u) :=
      h.pending.of_kept rfl hwaits (fun n c hc => ⟨c, hc, rfl⟩)
        fun j id t ht => h.pending.fresh j id t (hwaits j id t ht)
    exact ⟨h.net, runs_acted h.instances hu, hpending,
      h.passed.of_kept rfl fun n c hc => ⟨c, hc, rfl, fun _ _ ho => ho⟩⟩
  | network a v ha hv =>
    have hkept := fun n c (hc : w.net.calls n = some c) =>
      (RemoteCalls.move_of_step hv).kept hc
    refine ⟨TransitionSystem.run_concat h.net hv, h.instances, ?_, h.passed.of_kept rfl hkept⟩
    refine h.pending.of_kept rfl (fun _ _ _ ht => ht) (fun n c hc => ?_) h.pending.fresh
    obtain ⟨c', hc', hreq, -⟩ := hkept n c hc
    exact ⟨c', hc', hreq⟩
  | poll i id n t u v ht hu hv =>
    have hmove := RemoteCalls.move_of_step hv
    have hkept := fun n c (hc : w.net.calls n = some c) => hmove.kept hc
    exact ⟨TransitionSystem.run_concat h.net hv, runs_acted h.instances hu,
      h.pending.polled ht hu hmove (h.passed.not_mem hmove.of_send.1), h.passed.of_kept rfl hkept⟩
  | answer i id error t c result u ht hc hresult hu =>
    have hwait : Waits (w.instances i) id t := by
      obtain ⟨t', route, ht', hphase, -⟩ := Breaker.Interleaving.step_answer hu
      obtain rfl := Option.some.inj (ht.symm.trans ht')
      exact ⟨ht, route, hphase⟩
    exact ⟨h.net, runs_acted h.instances hu, h.pending.answered hwait hu,
      h.passed.answered h.pending hwait hc hresult⟩

/-- **Run lemma.** -/
theorem linked_of_run {as : List (Action ι)}
    (hr : (system sha1 st host policy).run (.start host policy) as = some w) :
    Linked sha1 st host policy w :=
  TransitionSystem.run_invariant (M := system sha1 st host policy)
    (fun _ _ _ h hs => h.step (move_of_step hs)) (linked_start sha1 st host policy) hr

/-! ## The requests -/

/-- The requests of all calls and checks satisfy `P`. -/
structure Asked (P : CheckRequest → Prop) (w : World ι) : Prop where
  tasks : ∀ i id t, (w.instances i).tasks id = some t → P t.request
  calls : ∀ i id r, Breaker.Interleaving.Action.call id r ∈ w.history i → P r
  sent : ∀ n r, RemoteCalls.Action.send n r ∈ w.sent → P r

variable {P : CheckRequest → Prop}

theorem Asked.acted (h : Asked P w) {i : ι} {a : Breaker.Interleaving.Action}
    {u : Breaker.Interleaving.World} (hu : (w.instances i).step a = some u)
    (hcall : ∀ id r, a = .call id r → P r) : Asked P (w.acted i a u) where
  tasks j id t ht := by
    have ht' : (Function.update w.instances i u j).tasks id = some t := ht
    by_cases hj : j = i
    · subst hj
      rw [Function.update_self] at ht'
      exact Breaker.Interleaving.requests_step (h.tasks j) hu hcall id t ht'
    · rw [Function.update_of_ne hj] at ht'
      exact h.tasks j id t ht'
  calls j id r hr := by
    have hr' : .call id r ∈ Function.update w.history i (w.history i ++ [a]) j := hr
    by_cases hj : j = i
    · subst hj
      rw [Function.update_self] at hr'
      rcases List.mem_append.mp hr' with hold | hnew
      · exact h.calls j id r hold
      · exact hcall id r (List.mem_singleton.mp hnew).symm
    · rw [Function.update_of_ne hj] at hr'
      exact h.calls j id r hr'
  sent := h.sent

theorem Asked.step (h : Asked P w) {a : Action ι} (hm : Move sha1 st w a w')
    (hcall : ∀ i id r, a = .own i (.call id r) → P r) : Asked P w' := by
  cases hm with
  | own i a u ha hu => exact h.acted hu fun id r heq => hcall i id r (heq ▸ rfl)
  | answer i id error t c result u ht hc hresult hu =>
    have hacted := h.acted hu (fun id r heq => by simp at heq)
    exact ⟨hacted.tasks, hacted.calls, hacted.sent⟩
  | poll i id n t u v ht hu hv =>
    have hacted := h.acted hu (fun id r heq => by simp at heq)
    refine ⟨hacted.tasks, hacted.calls, fun n' r hr => ?_⟩
    rcases List.mem_append.mp hr with hold | hnew
    · exact h.sent n' r hold
    · obtain ⟨-, rfl⟩ := RemoteCalls.Action.send.inj (List.mem_singleton.mp hnew)
      exact h.tasks i id t ht
  | network a v ha hv =>
    refine ⟨h.tasks, h.calls, fun n r hr => ?_⟩
    rcases List.mem_append.mp hr with hold | hnew
    · exact h.sent n r hold
    · obtain rfl := List.mem_singleton.mp hnew
      simp [Unasked] at ha

theorem asked_of_run {as : List (Action ι)}
    (hr : (system sha1 st host policy).run (.start host policy) as = some w)
    (hcalls : ∀ i id r, .own i (.call id r) ∈ as → P r) : Asked P w :=
  TransitionSystem.run_invariant_of_forall (M := system sha1 st host policy)
    (Q := fun a => ∀ i id r, a = .own i (.call id r) → P r)
    (fun _ _ _ h hQ hs => h.step (move_of_step hs) hQ)
    (fun a ha i id r heq => hcalls i id r (heq ▸ ha))
    ⟨fun _ _ _ ht => by simp [World.start, Breaker.Interleaving.World.start] at ht,
      fun _ _ _ hr => absurd hr List.not_mem_nil, fun _ _ hr => absurd hr List.not_mem_nil⟩ hr

/-! ## The rate of all instances -/

/-- What instance `i` has done to its fallback. -/
def World.fallbackOps (w : World ι) (policy : ι → Policy) (i : ι) : List FallbackOp :=
  Breaker.Interleaving.fallbackOps (.start (policy i) .new) (w.history i)

/-- **Rate of all instances.** Let every call of key `k` have the same limited quota and
    fit into its burst, at times at which nothing saturates; let Redis start with any
    keyspace, count in its own time, which leaves room for two bursts below `2⁵³`, and
    give the key to no other user; and let the requests that instance `i` checks against
    its fallback be at most `lag i` behind its latest call. In every interleaving of the
    instances, the network and Redis, with lost messages, timeouts and any number of
    outages, what Redis allows of the key in `[s, t]` and the fallbacks admit in
    `[S i, T i]` is together at most what the script and every instance alone may let
    through: one burst and the rate each, and a burst more for each time an instance has
    recovered. What an instance passes on from Redis is counted there, each check once. -/
theorem fleet_rate_bound [Fintype ι] (sha1 : List UInt8 → Digest) (st : RedisStorage)
    (host : Redis.Host) (policy : ι → Policy) (as : List (Action ι)) (w : World ι)
    (k : StorageKey) (q : Quota) (lag : ι → ℕ) (s t : ℕ) (S T : ι → ℕ)
    (hr : (system sha1 st host policy).run (.start host policy) as = some w)
    (hclock : st.clientClock = false)
    (hdigest : st.hashUserIds = true → ∀ userId,
      st.userDigest sha1 userId = st.userDigest sha1 k.userId → userId = k.userId)
    (hlimited : q.isUnlimited = false)
    (hcalls : ∀ i id r, .own i (.call id r) ∈ as → r.key = k → r.quota = q ∧
      r.cost ≤ q.maxBurst ∧ r.now.toNat + q.burstOffsetNanos.toNat < 2 ^ 64 - 1)
    (hlag : ∀ i, (Breaker.Interleaving.system (policy i) .new).Along
      (fun u a _ => Timely k (lag i) u a) (.start (policy i) .new) (w.history i))
    (hroom : w.net.state.server.timeUs + 2 * q.scriptBurst ≤ 2 ^ 53)
    (hst : s ≤ t) (hST : ∀ i, S i ≤ T i) :
    let allowed := st.allowedChecks sha1 host w.net.steps
    allowedCost k s t allowed + ∑ i, MemoryStorage.costBetween k (S i) (T i)
        (charged .new (w.fallbackOps policy i)) ≤
      (q.scriptBurst + (t - s)) / q.scriptInterval + ∑ i, (q.burstOffsetNanos.toNat + (T i - S i) +
        lossBetween q (lag i) (S i) (T i) (w.fallbackOps policy i)) / q.emissionIntervalNanos.toNat ∧
      (∀ i, ((w.fallbackOps policy i).filterMap FallbackOp.clearTime).length ≤
        closings (.start (policy i) .new) (w.history i)) ∧
      (w.passed.map Prod.fst).Nodup ∧ ∀ n r, (n, r) ∈ w.passed → ∃ time, (n, time, r) ∈ allowed := by
  intro allowed
  have hlinked := linked_of_run hr
  have hasked := asked_of_run (P := fun r => r.key = k → r.quota = q ∧ r.cost ≤ q.maxBurst ∧
    r.now.toNat + q.burstOffsetNanos.toNat < 2 ^ 64 - 1) hr hcalls
  refine ⟨Nat.add_le_add ?_ (Finset.sum_le_sum fun i _ => ?_), fun i => ?_, hlinked.passed.nodup,
    fun n r hn => ?_⟩
  · have hredis := RedisStorage.allowedCost_le_of_run hlinked.net hclock hdigest hlimited
      (fun n r hsent hk => ⟨(hasked.sent n r hsent hk).1, (hasked.sent n r hsent hk).2.1⟩) hroom hst
    rw [Nat.le_div_iff_mul_le q.scriptInterval_pos, Nat.mul_comm]
    exact hredis
  · have hrated : RatedCalls k q (w.history i) := fun id r hcall hk =>
      ⟨(hasked.calls i id r hcall hk).1, (hasked.calls i id r hcall hk).2.2⟩
    have hfallback := ((Breaker.Interleaving.ahead_start (policy i)).orderly (w.history i) _ hrated
      (hlag i)).costBetween_le (hST i)
    rw [Nat.le_div_iff_mul_le (q.emissionIntervalNanos_pos hlimited), Nat.mul_comm]
    exact hfallback
  · exact Breaker.Interleaving.clears_le_closings (policy i) (w.history i)
  · obtain ⟨c, reply, moment, hc, rfl, hout, hok⟩ := hlinked.passed.admitted n r hn
    exact RedisStorage.mem_allowedChecks_of_answered hlinked.net hc hout hok

/-- The check of instance 0 times out, and its fallback answers; the script then runs the
    check all the same, and after it that of instance 1. -/
def timedOutFleet : List (Action (Fin 2)) :=
  [.network (.env .load), .own 0 (.call 0 RedisStorage.aliceCheck), .poll 0 0 7,
    .own 1 (.call 0 RedisStorage.aliceCheck), .poll 1 0 8, .network (.giveUp 7),
    .answer 0 0 ⟨"timeout"⟩, .own 0 (.perform 0), .own 0 (.perform 0), .own 0 (.perform 0),
    .own 0 (.perform 0), .own 0 (.finish 0), .network (.execute 7), .network (.execute 8),
    .network (.receive 8), .answer 1 0 ⟨"timeout"⟩]

/-- Redis executes both checks. -/
theorem timedOutFleet_steps (entry : Option Redis.Entry) :
    ∃ w result, (system (fun _ => digestOfAlice) RedisStorage.plainStorage
        (RedisStorage.freshHost entry) fun _ => Breaker.onePolicy).run
          (.start (RedisStorage.freshHost entry) fun _ => Breaker.onePolicy)
            timedOutFleet = some w ∧
      w.history 0 = [.call 0 RedisStorage.aliceCheck, .poll 0, .answer 0 (.error ⟨"timeout"⟩),
        .perform 0, .perform 0, .perform 0, .perform 0, .finish 0] ∧
      w.history 1 = [.call 0 RedisStorage.aliceCheck, .poll 0, .answer 0 result] ∧
      w.net.steps =
        [.env .load, .exec 7 RedisStorage.aliceCheck, .exec 8 RedisStorage.aliceCheck] :=
  ⟨_, _, rfl, rfl, rfl, rfl⟩

theorem timedOutFleet_calls (i : Fin 2) (id : ℕ) (r : CheckRequest)
    (h : .own i (.call id r) ∈ timedOutFleet) : r = RedisStorage.aliceCheck := by
  simp only [timedOutFleet, List.mem_cons, Action.own.injEq, Breaker.Interleaving.Action.call.injEq,
    reduceCtorEq, List.not_mem_nil, or_false, false_or, and_false] at h
  rcases h with ⟨-, -, hr⟩ | ⟨-, -, hr⟩ <;> exact hr

/-- The same run on keys of another type, at the moment of the checks. -/
theorem fleet_rate_bound_timedOut :
    ∃ w, (system (fun _ => digestOfAlice) RedisStorage.plainStorage
        (RedisStorage.freshHost (some ⟨.other, none⟩)) fun _ => Breaker.onePolicy).run
          (.start (RedisStorage.freshHost (some ⟨.other, none⟩)) fun _ => Breaker.onePolicy)
            timedOutFleet = some w ∧
      allowedCost RedisStorage.aliceCheck.key 1790000000000000 1790000000000000
          (RedisStorage.plainStorage.allowedChecks (fun _ => digestOfAlice)
            (RedisStorage.freshHost (some ⟨.other, none⟩)) w.net.steps) +
        ∑ i : Fin 2, MemoryStorage.costBetween RedisStorage.aliceCheck.key 5 5
          (charged .new (w.fallbackOps (fun _ => Breaker.onePolicy) i)) ≤
      (1000000 + 0) / 250000 + ∑ i : Fin 2, (1000000000 + (5 - 5) +
        lossBetween fourPerSecond 0 5 5 (w.fallbackOps (fun _ => Breaker.onePolicy) i)) /
          250000000 := by
  obtain ⟨w, result, hr, h0, h1, hsteps⟩ := timedOutFleet_steps (some ⟨.other, none⟩)
  refine ⟨w, hr, ?_⟩
  have htime : w.net.state.server.timeUs = 1790000000000000 := by
    rw [(RemoteCalls.sound_of_run (linked_of_run hr).net).state, hsteps]
    exact (RedisStorage.evalsha_timeUs _ _ _ _).trans (RedisStorage.evalsha_timeUs _ _ _ _)
  have hlag : ∀ i : Fin 2, (Breaker.Interleaving.system Breaker.onePolicy .new).Along
      (fun u a _ => Timely RedisStorage.aliceCheck.key 0 u a) (.start Breaker.onePolicy .new)
      (w.history i) := by
    intro i
    fin_cases i
    · show TransitionSystem.Along _ _ _ (w.history 0)
      rw [h0]
      refine ⟨_, rfl, ?_, _, rfl, ?_, _, rfl, ?_, _, rfl, ?_, _, rfl, ?_, _, rfl, ?_, _, rfl, ?_,
        _, rfl, ?_, trivial⟩
      all_goals intro r hop _
      -- The fallback is checked at the time of the latest call.
      all_goals cases hop
      all_goals exact Nat.le_refl _
    · show TransitionSystem.Along _ _ _ (w.history 1)
      rw [h1]
      refine ⟨_, rfl, ?_, _, rfl, ?_, _, rfl, ?_, trivial⟩
      all_goals intro r hop _
      all_goals cases hop
  exact (fleet_rate_bound (fun _ => digestOfAlice) RedisStorage.plainStorage _
    (fun _ : Fin 2 => Breaker.onePolicy) timedOutFleet w RedisStorage.aliceCheck.key fourPerSecond
    (fun _ => 0) 1790000000000000 1790000000000000 (fun _ => 5) (fun _ => 5) hr rfl
    (fun hmode => absurd hmode (by decide)) rfl
    (fun i id r hmem _ => by
      rw [timedOutFleet_calls i id r hmem]
      exact ⟨rfl, by decide, by decide⟩)
    hlag (by rw [htime]; decide) (Nat.le_refl _) (fun _ => Nat.le_refl _)).1

end TowerRateTier.Fleet
