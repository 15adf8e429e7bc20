import TowerRateTier.Lib.RemoteCalls
import TowerRateTier.Storage.Redis.Agreement
import TowerRateTier.Storage.Redis.Keys
import TowerRateTier.Storage.Redis.Recovery

/-!
# `RedisStorage` over a network

Any number of instances with the same settings send `EVALSHA` to one Redis. A
check may be late, its reply may get lost, and after the timeout the client goes
on while the script may still run. A script that Redis does not know bounces: the
client loads it and sends the check again. The connection itself sends a command
once.

* `network_refines_memory`: the answers are those of one `MemoryStorage`.
* `network_rate_bound`: what is allowed in any interval, from any keyspace.
-/

namespace TowerRateTier

open RemoteCalls (ServerStep ExecutedAt executedIds)

/-! ## Model -/

namespace Redis

/-- A Redis server and whether its script cache has the script. -/
structure Host where
  server : Server
  loaded : Bool

/-- What happens to the host between checks: time passes and expired keys are dropped,
    the script is loaded, or the script cache is flushed. -/
inductive HostEvent where
  | elapse (us : ℕ) (dropped : String → Bool)
  | load
  | flush

/-- The answer to `EVALSHA`. -/
inductive Answer where
  | noScript
  | script (reply : Except String Reply)

/-- A host after an event. -/
def Host.event (host : Host) : HostEvent → Host
  | .elapse us dropped =>
    { host with server := host.server.advance (host.server.timeUs + us) dropped }
  | .load => { host with loaded := true }
  | .flush => { host with loaded := false }

def Answer.bounces : Answer → Bool
  | .noScript => true
  | .script _ => false

end Redis

namespace RedisStorage

variable (sha1 : List UInt8 → Digest) (st : RedisStorage)

/-- `EVALSHA` with the arguments of a check. -/
def evalsha (host : Redis.Host) (r : CheckRequest) : Redis.Host × Redis.Answer :=
  if host.loaded then
    let call := st.scriptCall sha1 r.key r.quota r.cost r.now
    let out := Redis.gcra Double.round host.server [call.key] call.argv
    ({ host with server := out.1 }, .script out.2)
  else (host, .noScript)

/-- Redis as the server of the checks. -/
def service : RemoteCalls.Service Redis.Host Redis.HostEvent CheckRequest Redis.Answer where
  exec := st.evalsha sha1
  env := Redis.Host.event
  bounces := Redis.Answer.bounces
  of_bounces host r h := by
    unfold evalsha at h ⊢
    split_ifs at h ⊢
    · cases h
    · rfl

/-- The instances, the network and Redis. -/
abbrev network (host : Redis.Host) :
    TransitionSystem (RemoteCalls.World Redis.Host Redis.HostEvent CheckRequest Redis.Answer)
      (RemoteCalls.Action Redis.HostEvent CheckRequest) :=
  RemoteCalls.system (st.service sha1) host

/-- A check at the time of Redis's clock. -/
def atServer (host : Redis.Host) (r : CheckRequest) : CheckRequest :=
  { r with now := UInt64.ofNat (host.server.timeUs * 1000) }

/-- The checks that Redis has executed, at the times of its clock. -/
def executedChecks (host : Redis.Host) :
    List (ServerStep Redis.HostEvent CheckRequest) → List CheckRequest
  | [] => []
  | .env e :: steps => executedChecks (host.event e) steps
  | .exec _ r :: steps =>
    let later := executedChecks (st.evalsha sha1 host r).1 steps
    match (st.evalsha sha1 host r).2 with
    | .noScript => later
    | .script _ => atServer host r :: later

/-- The checks that the script has allowed, with the number of the call and the time of
    Redis's clock in microseconds. -/
def allowedChecks (host : Redis.Host) :
    List (ServerStep Redis.HostEvent CheckRequest) → List (ℕ × ℕ × CheckRequest)
  | [] => []
  | .env e :: steps => allowedChecks (host.event e) steps
  | .exec id r :: steps =>
    let later := allowedChecks (st.evalsha sha1 host r).1 steps
    match (st.evalsha sha1 host r).2 with
    | .script (.ok reply) =>
      if reply.allowed = 1 then (id, host.server.timeUs, r) :: later else later
    | _ => later

/-- The cost of the allowed checks of key `k` in `[s, t]`. -/
def allowedCost (k : StorageKey) (s t : ℕ) (checks : List (ℕ × ℕ × CheckRequest)) : ℕ :=
  ((checks.filter fun x => x.2.2.key = k ∧ s ≤ x.2.1 ∧ x.2.1 ≤ t).map fun x => x.2.2.cost.toNat).sum

end RedisStorage

/-! ## One step of the host -/

/-- The script does not set the clock. -/
theorem Redis.gcra_timeUs {fl : ℚ → ℚ} (hfl : Double.IntegerRounding fl) (srv : Redis.Server)
    (keys argv : List String) : (Redis.gcra fl srv keys argv).1.timeUs = srv.timeUs := by
  rcases Redis.gcra_refused_or_accepted hfl srv keys argv with ⟨reason, hrefused⟩ | haccepted
  · rw [hrefused]
  · obtain ⟨a⟩ := haccepted
    rcases a.eq_or_stores hfl.toIntegerExact with hsame | ⟨tat, -, hstores⟩
    · rw [hsame]
    · rw [hstores]
      rfl

/-- The script leaves the other keys alone. -/
theorem Redis.gcra_keyspace_ne {fl : ℚ → ℚ} (hfl : Double.IntegerRounding fl) (srv : Redis.Server)
    {keys : List String} (argv : List String) {key : String} (h : keys ≠ [key]) :
    (Redis.gcra fl srv keys argv).1.keyspace key = srv.keyspace key := by
  rcases Redis.gcra_refused_or_accepted hfl srv keys argv with ⟨reason, hrefused⟩ | haccepted
  · rw [hrefused]
  · obtain ⟨a⟩ := haccepted
    exact a.keyspace_of_ne hfl.toIntegerExact h

namespace RedisStorage

variable {sha1 : List UInt8 → Digest} {st : RedisStorage} {host : Redis.Host} {r : CheckRequest}
  {k : StorageKey} {q : Quota}

theorem evalsha_unknown (sha1 : List UInt8 → Digest) (st : RedisStorage) (r : CheckRequest)
    (h : host.loaded = false) : st.evalsha sha1 host r = (host, .noScript) := by
  rw [evalsha, if_neg (by rw [h]; exact Bool.false_ne_true)]

/-- With the script loaded, `EVALSHA` is the check of the storage. -/
theorem evalsha_loaded (sha1 : List UInt8 → Digest) (st : RedisStorage) (r : CheckRequest)
    (h : host.loaded = true) :
    ∃ reply, st.evalsha sha1 host r =
        ({ host with server := (st.checkAndUpdate sha1 host.server r.key r.quota r.cost r.now).1 },
          .script reply) ∧
      (st.checkAndUpdate sha1 host.server r.key r.quota r.cost r.now).2 =
        invocationResult reply r.quota.maxBurst := by
  rw [evalsha, if_pos h]
  simp only [checkAndUpdate]
  rcases Redis.gcra Double.round host.server [(st.scriptCall sha1 r.key r.quota r.cost r.now).key]
    (st.scriptCall sha1 r.key r.quota r.cost r.now).argv with ⟨srv, reply⟩
  exact ⟨reply, rfl, rfl⟩

theorem evalsha_timeUs (sha1 : List UInt8 → Digest) (st : RedisStorage) (host : Redis.Host)
    (r : CheckRequest) :
    (st.evalsha sha1 host r).1.server.timeUs = host.server.timeUs := by
  unfold evalsha
  split_ifs
  · dsimp only
    rw [Redis.gcra_timeUs Double.integerRounding_round]
  · rfl

theorem evalsha_keyspace_ne (host : Redis.Host) {r : CheckRequest}
    (h : st.redisKey sha1 r.key ≠ st.redisKey sha1 k) :
    (st.evalsha sha1 host r).1.server.keyspace (st.redisKey sha1 k) =
      host.server.keyspace (st.redisKey sha1 k) := by
  unfold evalsha
  split_ifs
  · dsimp only
    rw [Redis.gcra_keyspace_ne Double.integerRounding_round]
    exact fun hkeys => h (List.cons.inj hkeys).1
  · rfl

/-- Two buckets have different Redis keys, if the digests of their users differ. -/
theorem redisKey_ne {key₁ key₂ : StorageKey} (hdigest : st.hashUserIds = true →
      st.userDigest sha1 key₁.userId = st.userDigest sha1 key₂.userId →
        key₁.userId = key₂.userId) (hne : key₁ ≠ key₂) :
    st.redisKey sha1 key₁ ≠ st.redisKey sha1 key₂ := by
  intro h
  apply hne
  by_cases hmode : st.hashUserIds = true
  · rw [st.redisKey_of_hashed sha1 hmode, st.redisKey_of_hashed sha1 hmode] at h
    obtain ⟨htier, heq⟩ := hashedKey_inj h
    exact StorageKey.ext (hdigest hmode heq) htier
  · rw [Bool.not_eq_true] at hmode
    rw [st.redisKey_of_plain sha1 hmode, st.redisKey_of_plain sha1 hmode] at h
    obtain ⟨htier, huser⟩ := plainKey_inj h
    exact StorageKey.ext huser htier

/-- Time goes forward. -/
theorem timeUs_le_apply (sha1 : List UInt8 → Digest) (st : RedisStorage) (host : Redis.Host)
    (op : ServerStep Redis.HostEvent CheckRequest) :
    host.server.timeUs ≤ (RemoteCalls.apply (st.service sha1) host op).server.timeUs := by
  cases op with
  | exec id r => exact (evalsha_timeUs sha1 st host r).ge
  | env e =>
    cases e with
    | elapse us dropped => exact Nat.le_add_right _ _
    | load => exact le_rfl
    | flush => exact le_rfl

theorem timeUs_le_after (sha1 : List UInt8 → Digest) (st : RedisStorage)
    (steps : List (ServerStep Redis.HostEvent CheckRequest)) :
    ∀ host : Redis.Host,
      host.server.timeUs ≤ (RemoteCalls.after (st.service sha1) host steps).server.timeUs := by
  induction steps with
  | nil => intro host; exact le_rfl
  | cons op steps ih => intro host; exact (timeUs_le_apply sha1 st host op).trans (ih _)

/-! ## A check that times out -/

/-- A check of alice with cost 1. -/
def aliceCheck : CheckRequest := ⟨⟨"alice", "free"⟩, fourPerSecond, 1, 5⟩

/-- The first check bounces, is sent again and times out before it runs; the second one
    is executed and answered after it. -/
def timedOutRun : List (RemoteCalls.Action Redis.HostEvent CheckRequest) :=
  [.send 0 aliceCheck, .execute 0, .env .load, .resend 0, .send 1 aliceCheck, .giveUp 0,
    .execute 0, .execute 1, .receive 1]

/-- A host without the script, on which all keys hold the same. -/
def freshHost (entry : Option Redis.Entry) : Redis.Host :=
  ⟨⟨fun _ => entry, 1790000000000000⟩, false⟩

/-- The user ids are left as they are. -/
def plainStorage : RedisStorage := { RedisStorage.new with hashUserIds := false }

theorem timedOutRun_sent (id : ℕ) (r : CheckRequest) (h : .send id r ∈ timedOutRun) :
    r = aliceCheck := by
  simp only [timedOutRun, List.mem_cons, RemoteCalls.Action.send.injEq, reduceCtorEq,
    List.not_mem_nil, or_false, false_or] at h
  rcases h with ⟨-, hr⟩ | ⟨-, hr⟩ <;> exact hr

/-- Both checks are executed, and the second one is answered. -/
theorem timedOutRun_steps (entry : Option Redis.Entry) :
    ∃ w c reply, (plainStorage.network (fun _ => digestOfAlice) (freshHost entry)).run
        (RemoteCalls.World.start (freshHost entry)) timedOutRun = some w ∧
      w.calls 1 = some c ∧ c.request = aliceCheck ∧ c.outcome = .answered (.script reply) 3 ∧
      w.steps = [.env .load, .exec 0 aliceCheck, .exec 1 aliceCheck] :=
  ⟨_, _, _, rfl, rfl, rfl, rfl, rfl⟩

/-- No time passes. -/
theorem timedOutRun_timeUs {entry : Option Redis.Entry}
    {w : RemoteCalls.World Redis.Host Redis.HostEvent CheckRequest Redis.Answer}
    (hr : (plainStorage.network (fun _ => digestOfAlice) (freshHost entry)).run
      (RemoteCalls.World.start (freshHost entry)) timedOutRun = some w)
    (hsteps : w.steps = [.env .load, .exec 0 aliceCheck, .exec 1 aliceCheck]) :
    w.state.server.timeUs = 1790000000000000 := by
  rw [(RemoteCalls.sound_of_run hr).state, hsteps]
  exact (evalsha_timeUs _ _ _ _).trans (evalsha_timeUs _ _ _ _)

/-! ## One `MemoryStorage` -/

/-- The checks of key `k` in a run are made with quota `q` and fit into its burst. -/
def ChecksWith (k : StorageKey) (q : Quota)
    (steps : List (ServerStep Redis.HostEvent CheckRequest)) : Prop :=
  ∀ id r, ServerStep.exec id r ∈ steps → r.key = k → r.quota = q ∧ r.cost ≤ q.maxBurst

theorem agrees_event {key : String} {tat : Option Nanos}
    (h : Agrees q host.server.timeUs (host.server.keyspace key) tat) (e : Redis.HostEvent) :
    Agrees q (host.event e).server.timeUs ((host.event e).server.keyspace key) tat := by
  cases e with
  | elapse us dropped => exact (h.later (Nat.le_add_right _ us)).advance dropped
  | load => exact h
  | flush => exact h

/-- A check that is executed gets the answer of `MemoryStorage`. -/
theorem agrees_evalsha {mem : MemoryStorage} {reply : Except String Redis.Reply}
    (hclock : st.clientClock = false)
    (h : Agrees r.quota host.server.timeUs (host.server.keyspace (st.redisKey sha1 r.key))
      (mem.state r.key))
    (hq : InMicros r.quota host.server.timeUs) (hcost : r.cost ≤ r.quota.maxBurst)
    (hreply : (st.evalsha sha1 host r).2 = .script reply) :
    invocationResult reply r.quota.maxBurst = .ok (mem.check (atServer host r)).2 ∧
      Agrees r.quota host.server.timeUs
        ((st.evalsha sha1 host r).1.server.keyspace (st.redisKey sha1 r.key))
        ((mem.check (atServer host r)).1.state r.key) := by
  cases hloaded : host.loaded with
  | false =>
    rw [evalsha_unknown sha1 st r hloaded] at hreply
    cases hreply
  | true =>
    obtain ⟨reply', heval, hresult⟩ := evalsha_loaded sha1 st r hloaded
    rw [heval] at hreply ⊢
    obtain rfl := Redis.Answer.script.inj hreply
    have hcheck := Agrees.check (c := ⟨r.cost, host.server.timeUs, r.now, fun _ => false⟩) h hq
      (UInt32.le_iff_toNat_le.mp hcost) rfl
    have hargNow : ScriptCheck.argNow ⟨r.cost, host.server.timeUs, r.now, fun _ => false⟩ st =
        r.now := if_neg (by rw [hclock]; exact Bool.false_ne_true)
    have hnow : ScriptCheck.now ⟨r.cost, host.server.timeUs, r.now, fun _ => false⟩ =
        (atServer host r).now := rfl
    rw [hargNow, hnow] at hcheck
    dsimp only at hcheck ⊢
    have hself : (mem.check (atServer host r)).1.state r.key = _ :=
      MemoryStorage.check_state_self mem (atServer host r)
    rw [← hresult, MemoryStorage.check_snd, hself]
    exact hcheck

/-- **Run lemma.** Redis and one `MemoryStorage` that gets the executed checks go on
    agreeing on key `k`. -/
theorem agrees_after (hclock : st.clientClock = false)
    (hkeys : ∀ k', k' ≠ k → st.redisKey sha1 k' ≠ st.redisKey sha1 k)
    (hlimited : q.isUnlimited = false) (hwhole : 1000 ∣ q.emissionIntervalNanos.toNat)
    (steps : List (ServerStep Redis.HostEvent CheckRequest)) :
    ∀ (host : Redis.Host) (mem : MemoryStorage), ChecksWith k q steps →
      (RemoteCalls.after (st.service sha1) host steps).server.timeUs + 2 * q.burstMicros ≤ 2 ^ 53 →
      Agrees q host.server.timeUs (host.server.keyspace (st.redisKey sha1 k)) (mem.state k) →
      Agrees q (RemoteCalls.after (st.service sha1) host steps).server.timeUs
        ((RemoteCalls.after (st.service sha1) host steps).server.keyspace (st.redisKey sha1 k))
        ((mem.afterChecks (st.executedChecks sha1 host steps)).state k) := by
  induction steps with
  | nil => intro host mem _ _ h; exact h
  | cons op steps ih =>
    intro host mem hsteps hroom h
    have hrest : ChecksWith k q steps := fun id r hr => hsteps id r (List.mem_cons_of_mem _ hr)
    cases op with
    | env e => exact ih (host.event e) mem hrest hroom (agrees_event h e)
    | exec id r =>
      have htime : host.server.timeUs + 2 * q.burstMicros ≤ 2 ^ 53 := by
        have := timeUs_le_after sha1 st (.exec id r :: steps) host
        omega
      rw [executedChecks]
      cases hreply : (st.evalsha sha1 host r).2 with
      | noScript =>
        have hsame : (st.evalsha sha1 host r).1 = host :=
          (st.service sha1).of_bounces host r (by
            show Redis.Answer.bounces (st.evalsha sha1 host r).2 = true
            rw [hreply]
            rfl)
        have hafter : RemoteCalls.after (st.service sha1) host (.exec id r :: steps) =
            RemoteCalls.after (st.service sha1) host steps :=
          congrArg (fun host => RemoteCalls.after (st.service sha1) host steps) hsame
        rw [hafter] at hroom ⊢
        rw [hsame]
        exact ih host mem hrest hroom h
      | script reply =>
        apply ih (st.evalsha sha1 host r).1 (mem.check (atServer host r)).1 hrest hroom
        rw [evalsha_timeUs]
        by_cases hk : r.key = k
        · obtain ⟨hquota, hcost⟩ := hsteps id r List.mem_cons_self hk
          subst hk hquota
          exact (agrees_evalsha hclock h ⟨hlimited, hwhole, htime⟩ hcost hreply).2
        · rw [evalsha_keyspace_ne host (hkeys r.key hk),
            MemoryStorage.check_state_ne mem (atServer host r) hk]
          exact h

/-- The calls of a run are those that are sent in it. -/
theorem sent_of_call {as : List (RemoteCalls.Action Redis.HostEvent CheckRequest)}
    {w : RemoteCalls.World Redis.Host Redis.HostEvent CheckRequest Redis.Answer}
    (hr : (st.network sha1 host).run (RemoteCalls.World.start host) as = some w) {id : ℕ}
    {c : RemoteCalls.Call CheckRequest Redis.Answer} (hc : w.calls id = some c) :
    RemoteCalls.Action.send id c.request ∈ as := by
  rcases RemoteCalls.sent_of_run hr hc with hsent | ⟨c', hc', -⟩
  · exact hsent
  · cases hc'

/-- Redis executes only checks that are sent. -/
theorem checksWith_of_run {as : List (RemoteCalls.Action Redis.HostEvent CheckRequest)}
    {w : RemoteCalls.World Redis.Host Redis.HostEvent CheckRequest Redis.Answer}
    (hr : (st.network sha1 host).run (RemoteCalls.World.start host) as = some w)
    (hsent : ∀ id r, .send id r ∈ as → r.key = k → r.quota = q ∧ r.cost ≤ q.maxBurst) :
    ChecksWith k q w.steps := by
  intro id r hmem hk
  obtain ⟨pre, post, hsplit⟩ := List.append_of_mem hmem
  obtain ⟨c, hc, rfl, -⟩ := (RemoteCalls.sound_of_run hr).executed pre id r post hsplit
  exact hsent id c.request (sent_of_call hr hc) hk

/-- **One limiter.** Let every check of key `k` have quota `q`, with a whole number of
    microseconds per request, and fit into its burst; let Redis start without the key,
    which no other user's digest leads to, and let its time leave room for two bursts
    below `2⁵³`. In every interleaving of the calls, the network and Redis, each check
    takes effect at most once, not before its call began, and also if the client has
    given up. An answer is the one that a single `MemoryStorage` gives, which gets the
    executed checks one after another, and the check has its place in this order between
    the call and its answer. A check that was answered with `NOSCRIPT` takes no effect. -/
theorem network_refines_memory (sha1 : List UInt8 → Digest) (st : RedisStorage)
    (host : Redis.Host) (as : List (RemoteCalls.Action Redis.HostEvent CheckRequest))
    (w : RemoteCalls.World Redis.Host Redis.HostEvent CheckRequest Redis.Answer)
    (k : StorageKey) (q : Quota)
    (hr : (st.network sha1 host).run (RemoteCalls.World.start host) as = some w)
    (hclock : st.clientClock = false)
    (hdigest : st.hashUserIds = true → ∀ userId,
      st.userDigest sha1 userId = st.userDigest sha1 k.userId → userId = k.userId)
    (habsent : host.server.keyspace (st.redisKey sha1 k) = none)
    (hlimited : q.isUnlimited = false) (hwhole : 1000 ∣ q.emissionIntervalNanos.toNat)
    (hsent : ∀ id r, .send id r ∈ as → r.key = k → r.quota = q ∧ r.cost ≤ q.maxBurst)
    (hroom : w.state.server.timeUs + 2 * q.burstMicros ≤ 2 ^ 53) :
    (executedIds w.steps).Nodup ∧
      (∀ pre id r post, w.steps = pre ++ .exec id r :: post →
        ∃ c, w.calls id = some c ∧ c.request = r ∧ c.sentAt ≤ pre.length) ∧
      ∀ id c b moment, w.calls id = some c → c.request.key = k →
        c.outcome = .answered b moment →
          (b = .noScript ∧ id ∉ executedIds w.steps) ∨
          ∃ reply pre post, b = .script reply ∧ w.steps = pre ++ .exec id c.request :: post ∧
            c.sentAt ≤ pre.length ∧ pre.length < moment ∧
            invocationResult reply q.maxBurst =
              .ok ((MemoryStorage.new.afterChecks (st.executedChecks sha1 host pre)).check
                (atServer (RemoteCalls.after (st.service sha1) host pre) c.request)).2 := by
  have hsound := RemoteCalls.sound_of_run hr
  have hkeys : ∀ k', k' ≠ k → st.redisKey sha1 k' ≠ st.redisKey sha1 k :=
    fun k' hne => redisKey_ne (fun hmode => hdigest hmode k'.userId) hne
  have hsteps := checksWith_of_run hr hsent
  refine ⟨hsound.nodup, hsound.executed, ?_⟩
  intro id c b moment hc hk hanswered
  have hexplained := ((hsound.calls id c hc).answered b moment hanswered).2
  unfold RemoteCalls.Explained at hexplained
  cases b with
  | noScript => exact Or.inl ⟨rfl, hexplained⟩
  | script reply =>
    right
    obtain ⟨n, hbegan, hn, pre, post, hsplit, rfl, hreply⟩ := hexplained
    refine ⟨reply, pre, post, rfl, hsplit, hbegan, hn, ?_⟩
    obtain ⟨rfl, hcost⟩ := hsent id c.request (sent_of_call hr hc) hk
    subst hk
    have hpre : ChecksWith c.request.key c.request.quota pre := fun id' r hr' =>
      hsteps id' r (by rw [hsplit]; exact List.mem_append_left _ hr')
    have htime : (RemoteCalls.after (st.service sha1) host pre).server.timeUs +
        2 * c.request.quota.burstMicros ≤ 2 ^ 53 := by
      have hlater := timeUs_le_after sha1 st (.exec id c.request :: post)
        (RemoteCalls.after (st.service sha1) host pre)
      rw [hsound.state, hsplit, RemoteCalls.after, List.foldl_append] at hroom
      exact (Nat.add_le_add_right hlater _).trans hroom
    have hagrees := agrees_after hclock hkeys hlimited hwhole pre host MemoryStorage.new hpre htime
      (by rw [habsent]; exact agrees_absent _ _)
    exact (agrees_evalsha hclock hagrees ⟨hlimited, hwhole, htime⟩ hcost hreply.symm).1

/-- The second check is answered as the second one, after the one that timed out. -/
theorem network_refines_memory_timedOut :
    ∃ w c reply, (plainStorage.network (fun _ => digestOfAlice) (freshHost none)).run
        (RemoteCalls.World.start (freshHost none)) timedOutRun = some w ∧
      w.calls 1 = some c ∧ c.outcome = .answered (.script reply) 3 ∧
      invocationResult reply 4 = .ok (.ok ⟨4, 2, .fromMicros 500000⟩) := by
  obtain ⟨w, c, reply, hr, hc, hreq, hanswered, hsteps⟩ := timedOutRun_steps none
  refine ⟨w, c, reply, hr, hc, hanswered, ?_⟩
  obtain ⟨-, -, h⟩ := network_refines_memory (fun _ => digestOfAlice) plainStorage (freshHost none)
    timedOutRun w aliceCheck.key fourPerSecond hr rfl (fun hmode => absurd hmode (by decide)) rfl
    rfl (by decide) (fun id r hmem _ => by rw [timedOutRun_sent id r hmem]; exact ⟨rfl, by decide⟩)
    (by rw [timedOutRun_timeUs hr hsteps]; decide)
  rcases h 1 c _ 3 hc (by rw [hreq]) hanswered with
    ⟨hb, -⟩ | ⟨reply', pre, post, hb, hsplit, -, -, hans⟩
  · cases hb
  · obtain rfl := Redis.Answer.script.inj hb
    rw [hsteps, hreq] at hsplit
    rw [hreq] at hans
    have hpre : pre = [.env .load, .exec 0 aliceCheck] := by
      rcases pre with - | ⟨a, - | ⟨b, - | ⟨c, pre⟩⟩⟩
      · simp at hsplit
      · simp at hsplit
      · simp only [List.cons_append, List.nil_append, List.cons.injEq] at hsplit
        rw [← hsplit.1, ← hsplit.2.1]
      · simp at hsplit
    subst hpre
    have hnow : atServer (RemoteCalls.after (plainStorage.service fun _ => digestOfAlice)
        (freshHost none) [.env .load, .exec 0 aliceCheck]) aliceCheck =
        ⟨aliceCheck.key, fourPerSecond, 1, 1790000000000000000⟩ := by
      have htime : (RemoteCalls.after (plainStorage.service fun _ => digestOfAlice)
          (freshHost none) [.env .load, .exec 0 aliceCheck]).server.timeUs = 1790000000000000 :=
        evalsha_timeUs _ _ _ _
      rw [atServer, htime]
      rfl
    rw [hnow] at hans
    exact hans

/-! ## The rate from any keyspace -/

/-- The key holds TAT `x`, which is at most one burst ahead, or nothing is known of it and
    `x` is zero. -/
def HoldsAtLeast (entry : Option Redis.Entry) (now bo x : ℕ) : Prop :=
  x = 0 ∨ Redis.Holds entry x ∧ x ≤ now + bo

theorem HoldsAtLeast.event {key : String} {bo x : ℕ}
    (h : HoldsAtLeast (host.server.keyspace key) host.server.timeUs bo x) (e : Redis.HostEvent) :
    ∃ y, HoldsAtLeast ((host.event e).server.keyspace key) (host.event e).server.timeUs bo y ∧
      max y (host.event e).server.timeUs = max x (host.event e).server.timeUs := by
  cases e with
  | load => exact ⟨x, h, rfl⟩
  | flush => exact ⟨x, h, rfl⟩
  | elapse us dropped =>
    rcases h with rfl | ⟨hx, hle⟩
    · exact ⟨0, Or.inl rfl, rfl⟩
    · obtain ⟨y, hy, hyx, hmax⟩ := hx.advance (host.server.timeUs + us) dropped
      refine ⟨y, Or.inr ⟨hy, ?_⟩, hmax⟩
      show y ≤ host.server.timeUs + us + bo
      omega

/-- The script reads no less than the key holds. -/
theorem HoldsAtLeast.le_of_reads {entry : Option Redis.Entry} {now bo x y : ℕ} {capped : Bool}
    (h : HoldsAtLeast entry now bo x) (hmax : now + bo ≤ 2 ^ 53)
    (hr : Redis.Reads Double.round entry now bo y capped) : max x now ≤ y := by
  apply max_le _ hr.now_le
  rcases h with rfl | ⟨hx, hle⟩
  · exact Nat.zero_le y
  cases capped with
  | true =>
    rw [hr.full rfl]
    exact hle
  | false =>
    cases hx with
    | absent => exact Nat.zero_le y
    | stored _ expiresAt hexp =>
      have hnumber := Redis.storedNumber_natCast Double.integerExact_round (hle.trans hmax)
        (some expiresAt)
      have hy : (x : ℚ) ≤ y := hr.kept rfl _ hnumber (by rw [Int.floor_natCast, Int.cast_natCast])
      exact_mod_cast hy

/-- The script as the storage calls it. -/
theorem evalsha_eq_call (hclock : st.clientClock = false) (hloaded : host.loaded = true)
    (hq : InScriptRange r.quota host.server.timeUs) :
    st.evalsha sha1 host r =
      let out := Redis.Request.call Double.round
        ⟨st.redisKey sha1 r.key, r.quota.scriptInterval, r.quota.scriptBurst, r.cost.toNat⟩
        host.server ""
      ({ host with server := out.1 }, .script out.2) := by
  have hnow : (st.scriptCall sha1 r.key r.quota r.cost r.now).now = "" :=
    if_neg (by rw [hclock]; exact Bool.false_ne_true)
  rw [evalsha, if_pos hloaded]
  simp only [hq.argv_eq sha1 st r.key r.cost r.now, hnow]
  rfl

/-- A check that is allowed fits after what the key holds, and moves it on. No check
    moves it back. -/
theorem HoldsAtLeast.evalsha {x : ℕ} (hclock : st.clientClock = false)
    (hloaded : host.loaded = true) (hq : InScriptRange r.quota host.server.timeUs)
    (hcost : r.cost ≤ r.quota.maxBurst)
    (h : HoldsAtLeast (host.server.keyspace (st.redisKey sha1 r.key)) host.server.timeUs
      r.quota.scriptBurst x) :
    ∃ reply x', (st.evalsha sha1 host r).2 = .script (.ok reply) ∧
      HoldsAtLeast ((st.evalsha sha1 host r).1.server.keyspace (st.redisKey sha1 r.key))
        host.server.timeUs r.quota.scriptBurst x' ∧
      if reply.allowed = 1 then
        max x host.server.timeUs + r.quota.scriptInterval * r.cost.toNat ≤
            host.server.timeUs + r.quota.scriptBurst ∧
          max x host.server.timeUs + r.quota.scriptInterval * r.cost.toNat ≤
            max x' host.server.timeUs
      else x ≤ x' := by
  have hfl := Double.integerExact_round
  have hroom := hq.room
  have hpos := r.quota.scriptInterval_pos.trans hq.interval_le_burst
  have hvalid : Redis.Request.Valid ⟨st.redisKey sha1 r.key, r.quota.scriptInterval,
      r.quota.scriptBurst, r.cost.toNat⟩ :=
    ⟨r.quota.scriptInterval_pos, hq.interval_le_burst,
      Quota.cost_le_scriptBurst (UInt32.le_iff_toNat_le.mp hcost)⟩
  obtain ⟨y, capped, hreads, hcall⟩ := Redis.Request.call_eq hfl hvalid hroom
    (Redis.scriptNow_clock hfl host.server (by omega))
  have hle := h.le_of_reads (by omega) hreads
  rw [evalsha_eq_call hclock hloaded hq]
  simp only [hcall]
  by_cases hlim : host.server.timeUs + r.quota.scriptBurst <
      y + r.quota.scriptInterval * r.cost.toNat
  · simp only [if_pos hlim]
    cases capped with
    | true =>
      refine ⟨_, y, rfl, Or.inr ⟨Redis.holds_store _ _ rfl, hreads.le_full⟩, ?_⟩
      exact (le_max_left x _).trans hle
    | false => exact ⟨_, x, rfl, h, le_rfl⟩
  · simp only [if_neg hlim]
    have hnew := Nat.add_le_add_right hle (r.quota.scriptInterval * r.cost.toNat)
    by_cases hfut : host.server.timeUs < y + r.quota.scriptInterval * r.cost.toNat
    · rw [if_pos hfut]
      refine ⟨_, y + r.quota.scriptInterval * r.cost.toNat, rfl,
        Or.inr ⟨Redis.holds_store _ _ rfl, not_lt.mp hlim⟩, ?_⟩
      exact ⟨hnew.trans (not_lt.mp hlim), hnew.trans (le_max_left _ _)⟩
    · refine ⟨_, 0, rfl, Or.inl rfl, ?_⟩
      exact ⟨hnew.trans (not_lt.mp hlim), (hnew.trans (not_lt.mp hfut)).trans (le_max_right _ _)⟩

theorem allowedCost_cons (k : StorageKey) (s t id time : ℕ) (r : CheckRequest)
    (checks : List (ℕ × ℕ × CheckRequest)) :
    allowedCost k s t ((id, time, r) :: checks) =
      (if r.key = k ∧ s ≤ time ∧ time ≤ t then r.cost.toNat else 0) + allowedCost k s t checks := by
  unfold allowedCost
  by_cases h : r.key = k ∧ s ≤ time ∧ time ≤ t
  · rw [if_pos h, List.filter_cons_of_pos (by simpa using h), List.map_cons, List.sum_cons]
  · rw [if_neg h, List.filter_cons_of_neg (by simpa using h), Nat.zero_add]

theorem allowedChecks_script {reply : Redis.Reply}
    (h : (st.evalsha sha1 host r).2 = .script (.ok reply)) (id : ℕ)
    (steps : List (ServerStep Redis.HostEvent CheckRequest)) :
    st.allowedChecks sha1 host (.exec id r :: steps) =
      if reply.allowed = 1 then
        (id, host.server.timeUs, r) :: st.allowedChecks sha1 (st.evalsha sha1 host r).1 steps
      else st.allowedChecks sha1 (st.evalsha sha1 host r).1 steps := by
  rw [allowedChecks, h]

/-- The allowed checks of a step and of the rest of the run. -/
theorem allowedChecks_exec (sha1 : List UInt8 → Digest) (st : RedisStorage) (host : Redis.Host)
    (id : ℕ) (r : CheckRequest) (steps : List (ServerStep Redis.HostEvent CheckRequest)) :
    st.allowedChecks sha1 host (.exec id r :: steps) =
        st.allowedChecks sha1 (st.evalsha sha1 host r).1 steps ∨
      st.allowedChecks sha1 host (.exec id r :: steps) =
        (id, host.server.timeUs, r) :: st.allowedChecks sha1 (st.evalsha sha1 host r).1 steps := by
  rw [allowedChecks]
  cases (st.evalsha sha1 host r).2 with
  | noScript => exact Or.inl rfl
  | script reply =>
    cases reply with
    | error err => exact Or.inl rfl
    | ok reply =>
      simp only
      split_ifs
      · exact Or.inr rfl
      · exact Or.inl rfl

/-- **Run lemma.** What is allowed from now on fits between the TAT that the key holds and
    the last moment at which a check of the interval may end. -/
theorem HoldsAtLeast.allowedCost_le (s t : ℕ) (hclock : st.clientClock = false)
    (hkeys : ∀ k', k' ≠ k → st.redisKey sha1 k' ≠ st.redisKey sha1 k)
    (hlimited : q.isUnlimited = false) (steps : List (ServerStep Redis.HostEvent CheckRequest)) :
    ∀ (host : Redis.Host) (x : ℕ), ChecksWith k q steps →
      (RemoteCalls.after (st.service sha1) host steps).server.timeUs + 2 * q.scriptBurst ≤ 2 ^ 53 →
      HoldsAtLeast (host.server.keyspace (st.redisKey sha1 k)) host.server.timeUs q.scriptBurst x →
      allowedCost k s t (st.allowedChecks sha1 host steps) = 0 ∨
        max x (max s host.server.timeUs) +
            q.scriptInterval * allowedCost k s t (st.allowedChecks sha1 host steps) ≤
          t + q.scriptBurst := by
  induction steps with
  | nil => intro host x _ _ _; exact Or.inl rfl
  | cons op steps ih =>
    intro host x hsteps hroom h
    have hrest : ChecksWith k q steps := fun id r hr => hsteps id r (List.mem_cons_of_mem _ hr)
    cases op with
    | env e =>
      obtain ⟨y, hy, hmax⟩ := h.event e
      have htime := timeUs_le_apply sha1 st host (.env e)
      apply (ih (host.event e) y hrest hroom hy).imp_right
      intro hle
      rw [allowedChecks]
      refine le_trans (Nat.add_le_add_right ?_ _) hle
      have : host.server.timeUs ≤ (host.event e).server.timeUs := htime
      omega
    | exec id r =>
      have htime : host.server.timeUs + 2 * q.scriptBurst ≤ 2 ^ 53 := by
        have := timeUs_le_after sha1 st (.exec id r :: steps) host
        omega
      have hsame := evalsha_timeUs sha1 st host r
      have hih := fun x' => ih (st.evalsha sha1 host r).1 x' hrest hroom
      rw [hsame] at hih
      by_cases hk : r.key = k
      · cases hloaded : host.loaded with
        | false =>
          have hbounce := evalsha_unknown sha1 st r hloaded
          rw [allowedChecks]
          simp only [hbounce] at hih ⊢
          exact hih x h
        | true =>
          obtain ⟨rfl, hcost⟩ := hsteps id r List.mem_cons_self hk
          subst hk
          obtain ⟨reply, x', hreply, hx', hallowed⟩ :=
            h.evalsha hclock hloaded ⟨hlimited, htime⟩ hcost
          have hlater := hih x' hx'
          rw [allowedChecks_script hreply]
          split_ifs at hallowed ⊢ with hok
          · obtain ⟨hfits, hmoved⟩ := hallowed
            rw [allowedCost_cons]
            by_cases hin : s ≤ host.server.timeUs ∧ host.server.timeUs ≤ t
            · rw [if_pos ⟨rfl, hin⟩, Nat.mul_add]
              right
              rcases hlater with hzero | hlater
              · rw [hzero]
                omega
              · omega
            · rw [if_neg (fun hc => hin hc.2), Nat.zero_add]
              apply hlater.imp_right
              omega
          · apply hlater.imp_right
            omega
      · have hother := hkeys r.key hk
        have hframe := evalsha_keyspace_ne host hother
        have hlater := hih x (by rw [hframe]; exact h)
        rcases allowedChecks_exec sha1 st host id r steps with heq | heq
        · rw [heq]
          exact hlater
        · rw [heq, allowedCost_cons, if_neg (fun hc => hk hc.1), Nat.zero_add]
          exact hlater

theorem allowedChecks_sublist (steps : List (ServerStep Redis.HostEvent CheckRequest)) :
    ∀ host : Redis.Host,
      ((st.allowedChecks sha1 host steps).map Prod.fst).Sublist (executedIds steps) := by
  induction steps with
  | nil => intro host; exact List.Sublist.refl _
  | cons op steps ih =>
    intro host
    cases op with
    | env e => exact ih (host.event e)
    | exec id r =>
      rcases allowedChecks_exec sha1 st host id r steps with heq | heq
      · rw [heq]
        exact (ih _).cons id
      · rw [heq]
        exact (ih _).cons_cons id

/-- A check whose reply is an admission is among the allowed ones. -/
theorem mem_allowedChecks {reply : Redis.Reply} (hok : reply.allowed = 1) {id : ℕ}
    {post : List (ServerStep Redis.HostEvent CheckRequest)}
    (pre : List (ServerStep Redis.HostEvent CheckRequest)) : ∀ host : Redis.Host,
      (st.evalsha sha1 (RemoteCalls.after (st.service sha1) host pre) r).2 = .script (.ok reply) →
      ∃ time, (id, time, r) ∈ st.allowedChecks sha1 host (pre ++ .exec id r :: post) := by
  induction pre with
  | nil =>
    intro host hreply
    have hnow : (st.evalsha sha1 host r).2 = .script (.ok reply) := hreply
    refine ⟨host.server.timeUs, ?_⟩
    rw [List.nil_append, allowedChecks_script hnow, if_pos hok]
    exact List.mem_cons_self
  | cons op pre ih =>
    intro host hreply
    cases op with
    | env e => exact ih (host.event e) hreply
    | exec id' r' =>
      obtain ⟨time, hmem⟩ := ih (st.evalsha sha1 host r').1 hreply
      refine ⟨time, ?_⟩
      rcases allowedChecks_exec sha1 st host id' r' (pre ++ .exec id r :: post) with heq | heq
      · rw [List.cons_append, heq]
        exact hmem
      · rw [List.cons_append, heq]
        exact List.mem_cons_of_mem _ hmem

/-- What Redis allows of a key in a run. -/
theorem allowedCost_le_of_run {as : List (RemoteCalls.Action Redis.HostEvent CheckRequest)}
    {w : RemoteCalls.World Redis.Host Redis.HostEvent CheckRequest Redis.Answer} {s t : ℕ}
    (hr : (st.network sha1 host).run (RemoteCalls.World.start host) as = some w)
    (hclock : st.clientClock = false)
    (hdigest : st.hashUserIds = true → ∀ userId,
      st.userDigest sha1 userId = st.userDigest sha1 k.userId → userId = k.userId)
    (hlimited : q.isUnlimited = false)
    (hsent : ∀ id r, .send id r ∈ as → r.key = k → r.quota = q ∧ r.cost ≤ q.maxBurst)
    (hroom : w.state.server.timeUs + 2 * q.scriptBurst ≤ 2 ^ 53) (hst : s ≤ t) :
    q.scriptInterval * allowedCost k s t (st.allowedChecks sha1 host w.steps) ≤
      q.scriptBurst + (t - s) := by
  have hkeys : ∀ k', k' ≠ k → st.redisKey sha1 k' ≠ st.redisKey sha1 k :=
    fun k' hne => redisKey_ne (fun hmode => hdigest hmode k'.userId) hne
  rw [(RemoteCalls.sound_of_run hr).state] at hroom
  have hbound := HoldsAtLeast.allowedCost_le s t hclock hkeys hlimited w.steps host 0
    (checksWith_of_run hr hsent) hroom (Or.inl rfl)
  rcases hbound with hzero | hle
  · rw [hzero]
    omega
  · omega

/-- A call that was answered with an admission is among the allowed ones. -/
theorem mem_allowedChecks_of_answered
    {as : List (RemoteCalls.Action Redis.HostEvent CheckRequest)}
    {w : RemoteCalls.World Redis.Host Redis.HostEvent CheckRequest Redis.Answer}
    (hr : (st.network sha1 host).run (RemoteCalls.World.start host) as = some w) {id : ℕ}
    {c : RemoteCalls.Call CheckRequest Redis.Answer} {reply : Redis.Reply} {moment : ℕ}
    (hc : w.calls id = some c) (hanswered : c.outcome = .answered (.script (.ok reply)) moment)
    (hok : reply.allowed = 1) :
    ∃ time, (id, time, c.request) ∈ st.allowedChecks sha1 host w.steps := by
  have hsound := RemoteCalls.sound_of_run hr
  obtain ⟨n, -, -, pre, post, hsplit, -, hreply⟩ :=
    ((hsound.calls id c hc).answered _ moment hanswered).2
  rw [hsplit]
  exact mem_allowedChecks hok pre host hreply.symm

/-- **Rate bound.** Let Redis start with any keyspace, corrupted values and TATs of a clock
    that was ahead included, and let its time leave room for two bursts below `2⁵³`. Let
    every check of key `k` have the same limited quota and fit into its burst, and let no
    other user's digest lead to the key. In every interleaving of the calls, the network
    and Redis, the checks of the key that are allowed at times in `[s, t]` take at most
    the burst of the script and `t - s` together. Each call is counted at most once, also
    if its client has given up, and every call that was answered with an admission is
    among them. -/
theorem network_rate_bound (sha1 : List UInt8 → Digest) (st : RedisStorage)
    (host : Redis.Host) (as : List (RemoteCalls.Action Redis.HostEvent CheckRequest))
    (w : RemoteCalls.World Redis.Host Redis.HostEvent CheckRequest Redis.Answer)
    (k : StorageKey) (q : Quota) (s t : ℕ)
    (hr : (st.network sha1 host).run (RemoteCalls.World.start host) as = some w)
    (hclock : st.clientClock = false)
    (hdigest : st.hashUserIds = true → ∀ userId,
      st.userDigest sha1 userId = st.userDigest sha1 k.userId → userId = k.userId)
    (hlimited : q.isUnlimited = false)
    (hsent : ∀ id r, .send id r ∈ as → r.key = k → r.quota = q ∧ r.cost ≤ q.maxBurst)
    (hroom : w.state.server.timeUs + 2 * q.scriptBurst ≤ 2 ^ 53) (hst : s ≤ t) :
    let allowed := st.allowedChecks sha1 host w.steps
    q.scriptInterval * allowedCost k s t allowed ≤ q.scriptBurst + (t - s) ∧
      (allowed.map Prod.fst).Nodup ∧
      ∀ id c reply moment, w.calls id = some c →
        c.outcome = .answered (.script (.ok reply)) moment → reply.allowed = 1 →
          ∃ time, (id, time, c.request) ∈ allowed := by
  intro allowed
  have hsound := RemoteCalls.sound_of_run hr
  refine ⟨?_, hsound.nodup.sublist (allowedChecks_sublist w.steps host), ?_⟩
  · exact allowedCost_le_of_run hr hclock hdigest hlimited hsent hroom hst
  · intro id c reply moment hc hanswered hok
    exact mem_allowedChecks_of_answered hr hc hanswered hok

/-- The same run on keys of another type, at the moment at which both checks run. -/
theorem network_rate_bound_timedOut :
    ∃ w c, (plainStorage.network (fun _ => digestOfAlice) (freshHost (some ⟨.other, none⟩))).run
        (RemoteCalls.World.start (freshHost (some ⟨.other, none⟩))) timedOutRun = some w ∧
      w.calls 1 = some c ∧
      250000 * allowedCost aliceCheck.key 1790000000000000 1790000000000000
        (plainStorage.allowedChecks (fun _ => digestOfAlice) (freshHost (some ⟨.other, none⟩))
          w.steps) ≤ 1000000 + 0 := by
  obtain ⟨w, c, reply, hr, hc, -, -, hsteps⟩ := timedOutRun_steps (some ⟨.other, none⟩)
  refine ⟨w, c, hr, hc, ?_⟩
  exact (network_rate_bound (fun _ => digestOfAlice) plainStorage _ timedOutRun w aliceCheck.key
    fourPerSecond 1790000000000000 1790000000000000 hr rfl
    (fun hmode => absurd hmode (by decide)) rfl
    (fun id r hmem _ => by rw [timedOutRun_sent id r hmem]; exact ⟨rfl, by decide⟩)
    (by rw [timedOutRun_timeUs hr hsteps]; decide) le_rfl).1

end RedisStorage

end TowerRateTier
