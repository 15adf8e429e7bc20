import TowerRateTier.Storage.Redis.Recovery

/-!
# The effects of a call

What one call of the script does to the keyspace, for any keys and arguments, any
contents and any time.

* `capped_iff`: the stored TAT is capped exactly if it reads as an integer after the
  cap, or as `+inf`.
* `script_effects`: nothing if it answers with an error, and otherwise at most
  one `SET` of its key, with a time to live that is the time until the TAT,
  rounded up to whole milliseconds.
-/

namespace TowerRateTier.Redis

/-- The script has something to store: a new TAT in the future, or a capped TAT. -/
def Writes (reply : Reply) (now newTat : ℚ) (capped : Bool) : Prop :=
  reply.allowed = 1 ∧ now < newTat ∨ reply.allowed = 0 ∧ capped = true

/-- `SET key value PX px` at `now`: the value is an integer in the future, and `px` is
    the time until then, in milliseconds and rounded up. -/
structure StoresTat (srv srv' : Server) (key : String) (now : ℚ) (value px : ℕ) : Prop where
  future : now < value
  px_pos : 1 ≤ px
  not_late : ((px : ℚ) - 1) * 1000 < value - now
  not_early : value - now ≤ (px : ℚ) * 1000
  put : srv' = srv.put key (toString value) px

/-- What the script caps: `+inf`, and an integer after `cap`. -/
def AboveCap (cap : ℚ) : Lua.Number → Prop
  | .nan => False
  | .inf negative => negative = false
  | .fin tat => tat = ⌊tat⌋ ∧ cap < tat

/-- A TAT in the future is stored so. -/
theorem storesTat_store (srv : Server) (key : String) {now tat : ℕ} (h : now < tat) :
    StoresTat srv (srv.store key now tat) key now tat (ttlMs (tat - now)) where
  future := by exact_mod_cast h
  px_pos := ttlMs_pos (by omega)
  not_late := by
    have hlt := ttlMs_lt (show 0 < tat - now by omega)
    have hnat : now + ttlMs (tat - now) * 1000 < tat + 1000 := by omega
    have hcast : (now : ℚ) + ttlMs (tat - now) * 1000 < tat + 1000 := by exact_mod_cast hnat
    linarith
  not_early := by
    have hle := le_ttlMs (tat - now)
    have hnat : tat ≤ now + ttlMs (tat - now) * 1000 := by omega
    have hcast : (tat : ℚ) ≤ now + ttlMs (tat - now) * 1000 := by exact_mod_cast hnat
    linarith
  put := rfl

variable {fl : ℚ → ℚ} {srv : Server}

/-! ## The cap -/

/-- The flag of the stored TAT, by the number that the key holds. -/
theorem storedTat_capped_iff {args : Args} (h : args.now ≤ fl (args.now + args.burstOffset)) :
    (storedTat fl srv args).2 = true ↔
      ∃ m, storedNumber fl (srv.keyspace args.key) = some m ∧
        AboveCap (fl (args.now + args.burstOffset)) m := by
  rw [storedTat_eq_number]
  cases storedNumber fl (srv.keyspace args.key) with
  | none => simp
  | some m =>
    simp only [Option.some.injEq, exists_eq_left']
    cases m with
    | nan => simp [AboveCap]
    | inf negative => cases negative <;> simp [AboveCap]
    | fin tat =>
      simp only [AboveCap]
      split_ifs with hfresh hlate
      · -- no integer, or past and so not after the cap
        refine ⟨False.elim, fun habove => ?_⟩
        rcases hfresh with hfrac | hpast
        · exact absurd habove.1 hfrac
        · exact absurd habove.2 (not_lt.mpr (hpast.le.trans h))
      · exact ⟨fun _ => ⟨not_not.mp (not_or.mp hfresh).1, hlate⟩, fun _ => rfl⟩
      · exact ⟨False.elim, fun habove => absurd habove.2 hlate⟩

/-- The cap of a call is after its time, also where it is rounded. -/
theorem Numbers.now_lt_cap (hfl : Double.IntegerRounding fl) (n : Numbers) :
    (n.now : ℚ) < fl (n.now + n.burstOffset) := by
  have hpos := n.interval_pos
  have hle := n.interval_le_burst
  have hnow := n.now_lt
  have hcap := hfl.natCast_cases (n.now + n.burstOffset)
  rw [Nat.cast_add] at hcap
  rcases hcap with ⟨-, heq⟩ | ⟨-, k, heq, hk⟩
  · rw [heq]
    exact_mod_cast show n.now < n.now + n.burstOffset by omega
  · rw [heq]
    exact_mod_cast show n.now < k by omega

/-- **Cap.** Once the arguments are accepted, the stored TAT is capped exactly if it
    reads as an integer after the rounded `now + burst`, or as `+inf`. -/
theorem capped_iff (hfl : Double.IntegerRounding fl) {keys argv : List String} {args : Args}
    (h : readArgs fl srv keys argv = .ok args) :
    (storedTat fl srv args).2 = true ↔
      ∃ m, storedNumber fl (srv.keyspace args.key) = some m ∧
        AboveCap (fl (args.now + args.burstOffset)) m := by
  obtain ⟨n, -, hn⟩ := readArgs_eq_ok h
  refine storedTat_capped_iff ?_
  rw [hn]
  exact (n.now_lt_cap hfl).le

/-! ## The writes -/

namespace Accepted

variable {keys argv : List String}

/-- The new TAT that the script computes. -/
theorem fl_newTat (hfl : Double.IntegerExact fl) (a : Accepted fl srv keys argv) :
    fl ((a.tat : ℚ) + fl (a.numbers.emissionInterval * a.numbers.cost)) = a.newTat := by
  rw [a.increment_eq]
  exact hfl.add_natCast a.sum_le

/-- What an accepted call stores. -/
theorem effects (hfl : Double.IntegerExact fl) (a : Accepted fl srv keys argv) {reply : Reply}
    (hreply : (gcra fl srv keys argv).2 = .ok reply) :
    (reply.allowed = 0 ∨ reply.allowed = 1) ∧
      (¬ Writes reply a.numbers.now a.newTat a.capped → (gcra fl srv keys argv).1 = srv) ∧
      (Writes reply a.numbers.now a.newTat a.capped → ∃ value px : ℕ,
        (value : ℚ) = (if reply.allowed = 1 then (a.newTat : ℚ) else a.tat) ∧
        StoresTat srv (gcra fl srv keys argv).1 a.key a.numbers.now value px) := by
  by_cases hlim : a.Limited
  · obtain ⟨⟨reply', hreply', hzero⟩, hsrv⟩ := a.gcra_of_limited hfl hlim
    obtain rfl := Except.ok.inj (hreply.symm.trans hreply')
    have hone : ¬ reply.allowed = 1 := by rw [hzero]; decide
    rw [hsrv]
    refine ⟨Or.inl hzero, fun hno => ?_, ?_⟩
    · exact if_neg fun hcapped => hno (Or.inr ⟨hzero, hcapped⟩)
    · rintro (⟨h, -⟩ | ⟨-, hcapped⟩)
      · exact absurd h hone
      · rw [if_pos hcapped, if_neg hone]
        exact ⟨a.tat, _, rfl, storesTat_store srv a.key (a.now_lt_of_capped hcapped)⟩
  · obtain ⟨⟨reply', hreply', hone⟩, hsrv⟩ := a.gcra_of_not_limited hfl hlim
    obtain rfl := Except.ok.inj (hreply.symm.trans hreply')
    rw [hsrv]
    refine ⟨Or.inr hone, fun hno => ?_, ?_⟩
    · exact if_neg fun hfuture => hno (Or.inl ⟨hone, by exact_mod_cast hfuture⟩)
    · rintro (⟨-, hfuture⟩ | ⟨hzero, -⟩)
      · have hlt : a.numbers.now < a.newTat := by exact_mod_cast hfuture
        rw [if_pos hlt, if_pos hone]
        exact ⟨a.newTat, _, rfl, storesTat_store srv a.key hlt⟩
      · rw [hone] at hzero
        exact absurd hzero (by decide)

end Accepted

/-- **Effects.** No call changes a key that it is not called with. A call that answers
    with an error, which is always one of the script's own, changes nothing. Any other
    call was given one key and accepted arguments. It stores the new TAT if the request
    was allowed and that TAT is in the future, the capped TAT if the request was limited
    and the stored one was capped, because it reads as `+inf` or as an integer after the
    rounded end of a burst, and otherwise nothing. -/
theorem script_effects (srv : Server) (keys argv : List String) :
    (∀ key, keys ≠ [key] →
      (gcra Double.round srv keys argv).1.keyspace key = srv.keyspace key) ∧
    (∀ err, (gcra Double.round srv keys argv).2 = .error err →
      (∃ reason, err = fail reason) ∧ (gcra Double.round srv keys argv).1 = srv) ∧
    ∀ reply, (gcra Double.round srv keys argv).2 = .ok reply →
      ∃ (args : Args) (tat : ℚ) (capped : Bool),
        keys = [args.key] ∧ readArgs Double.round srv keys argv = .ok args ∧
        storedTat Double.round srv args = (tat, capped) ∧
        (capped = true ↔ ∃ m, storedNumber Double.round (srv.keyspace args.key) = some m ∧
          AboveCap (Double.round (args.now + args.burstOffset)) m) ∧
        (reply.allowed = 0 ∨ reply.allowed = 1) ∧
        let newTat := Double.round (tat + Double.round (args.emissionInterval * args.cost))
        (¬ Writes reply args.now newTat capped → (gcra Double.round srv keys argv).1 = srv) ∧
        (Writes reply args.now newTat capped → ∃ value px : ℕ,
          (value : ℚ) = (if reply.allowed = 1 then newTat else tat) ∧
          StoresTat srv (gcra Double.round srv keys argv).1 args.key args.now value px) := by
  have hfl := Double.integerRounding_round
  rcases gcra_refused_or_accepted hfl srv keys argv with ⟨reason, hrefused⟩ | haccepted
  · rw [hrefused]
    refine ⟨fun _ _ => rfl, fun err herr => ⟨⟨reason, (Except.error.inj herr).symm⟩, rfl⟩, ?_⟩
    intro reply hreply
    exact absurd hreply (by simp)
  · obtain ⟨a⟩ := haccepted
    refine ⟨fun key hkey => a.keyspace_of_ne hfl.toIntegerExact hkey, ?_, ?_⟩
    · intro err herr
      rw [a.gcra_eq hfl.toIntegerExact] at herr
      split_ifs at herr
    · intro reply hreply
      have heffects := a.effects hfl.toIntegerExact hreply
      rw [← a.fl_newTat hfl.toIntegerExact] at heffects
      have hcapped := capped_iff hfl a.args_eq
      rw [a.tat_eq] at hcapped
      exact ⟨a.numbers.args a.key, a.tat, a.capped, a.keys_eq, a.args_eq, a.tat_eq, hcapped,
        heffects⟩

/-- A limited request that reads a TAT 100 seconds ahead stores a full burst. -/
theorem script_effects_clockMovedBack :
    ∃ reply px,
      (fourPerSecondRequest.call Double.round clockMovedBack "").2 = .ok reply ∧
      reply.allowed = 0 ∧
      StoresTat clockMovedBack (fourPerSecondRequest.call Double.round clockMovedBack "").1
        "trt:free:alice" (1000000 : ℕ) 2000000 px := by
  have hfl := Double.integerExact_round
  have hlimited := congrArg Prod.snd clockMovedBack_call
  have hread : readArgs Double.round clockMovedBack ["trt:free:alice"]
      ["", toString 250000, toString 1000000, toString 1] =
      .ok ⟨"trt:free:alice", (250000 : ℕ), (1000000 : ℕ), (1 : ℕ), (1000000 : ℕ)⟩ :=
    readArgs_eq hfl clockMovedBack _ _ (by decide) (by decide) (by decide) (by decide)
      (scriptNow_clock hfl clockMovedBack (by decide))
  have hcap : Double.round ((1000000 : ℕ) + (1000000 : ℕ)) = (2000000 : ℕ) :=
    hfl.add_natCast (by decide)
  obtain ⟨-, -, hok⟩ := script_effects clockMovedBack ["trt:free:alice"]
    ["", toString 250000, toString 1000000, toString 1]
  obtain ⟨args, tat, capped, -, hargs, htat, -, -, -, hwrites⟩ := hok _ hlimited
  obtain rfl := Except.ok.inj (hread.symm.trans hargs)
  rw [storedTat_eq_number] at htat
  simp only [storedNumber_clockMovedBack, hcap] at htat
  norm_num at htat
  obtain ⟨rfl, rfl⟩ := htat
  obtain ⟨value, px, hvalue, hstores⟩ := hwrites (Or.inr ⟨rfl, rfl⟩)
  obtain rfl : value = 2000000 := by
    rw [if_neg (by decide)] at hvalue
    exact_mod_cast hvalue
  exact ⟨_, px, hlimited, rfl, hstores⟩

end TowerRateTier.Redis
