import E6irc.Base.Word

/-!
# The command allowance of a session

`meter.rs`: a bucket of at most `burst` tokens that regains `rate` a second.  The
tokens regained are credited in whole tokens and the instant they are credited
through, `refilled_to`, moves on in whole milliseconds.  The two roundings agree
exactly when a token is worth a whole number of milliseconds or a millisecond a
whole number of tokens (`CommandFlood.Even`); for any other rate the instant falls
behind what was credited, and what it falls behind is credited again.

Instants are whole milliseconds.
-/

namespace E6irc.Meter

open Base List

def maxCommandFloodTokens : ℕ := 10000

structure CommandFlood where
  burst : ℕ
  rate : ℕ
  rate_pos : 0 < rate
  rate_le : rate ≤ burst
  burst_le : burst ≤ maxCommandFloodTokens

inductive CommandFloodError
  | rateZero
  | burstZero
  | burstBelowRate (burst rate : ℕ)
  | aboveMaximum (maximum : ℕ)
deriving DecidableEq, Repr

def CommandFlood.new (burst rate : ℕ) : Except CommandFloodError CommandFlood :=
  if noRate : rate = 0 then .error .rateZero
  else if burst = 0 then .error .burstZero
  else if below : burst < rate then .error (.burstBelowRate burst rate)
  else if above : maxCommandFloodTokens < burst ∨ maxCommandFloodTokens < rate then
    .error (.aboveMaximum maxCommandFloodTokens)
  else .ok ⟨burst, rate, Nat.pos_of_ne_zero noRate, Nat.le_of_not_lt below,
    Nat.le_of_not_lt fun exceeds => above (.inl exceeds)⟩

/-- Every shape within the bounds can be configured. -/
theorem CommandFlood.new_eq_ok (flood : CommandFlood) :
    CommandFlood.new flood.burst flood.rate = .ok flood := by
  obtain ⟨burst, rate, pos, le, max⟩ := flood
  have filled : burst ≠ 0 := by omega
  have within : ¬ (maxCommandFloodTokens < burst ∨ maxCommandFloodTokens < rate) := by omega
  simp [new, Nat.ne_of_gt pos, filled, Nat.not_lt.mpr le, within]

structure TokenBucket where
  flood : CommandFlood
  tokens : ℕ
  refilledTo : ℕ

namespace TokenBucket

/-- A full bucket at `now`. -/
def new (flood : CommandFlood) (now : ℕ) : TokenBucket := ⟨flood, flood.burst, now⟩

/-- The tokens regained from `refilled_to` to `now`. -/
def credited (bucket : TokenBucket) (now : ℕ) : ℕ :=
  u64SaturatingMul (min (now - bucket.refilledTo) u64Max) bucket.flood.rate / 1000

/-- The bucket with the tokens regained by `now`. -/
def refill (bucket : TokenBucket) (now : ℕ) : TokenBucket :=
  let credited := bucket.credited now
  { bucket with
    refilledTo := bucket.refilledTo + u64SaturatingMul credited 1000 / bucket.flood.rate
    tokens := min (u64SaturatingAdd bucket.tokens credited) bucket.flood.burst }

/-- When the next token is there: `none` is now. -/
def blockedUntil (bucket : TokenBucket) (now : ℕ) : Option ℕ × TokenBucket :=
  let bucket := bucket.refill now
  if 0 < bucket.tokens then (none, bucket)
  else (some (bucket.refilledTo + (1000 + bucket.flood.rate - 1) / bucket.flood.rate), bucket)

def take (bucket : TokenBucket) : TokenBucket :=
  { bucket with tokens := bucket.tokens - 1 }

/-- The instants, of those the bucket is asked at, at which a token is taken. -/
def taken (bucket : TokenBucket) : List ℕ → List ℕ
  | [] => []
  | now :: later =>
    match bucket.blockedUntil now with
    | (none, bucket) => now :: bucket.take.taken later
    | (some _, bucket) => bucket.taken later

end TokenBucket

/-- A token is worth whole milliseconds, or a millisecond whole tokens. -/
def CommandFlood.Even (flood : CommandFlood) : Prop :=
  flood.rate ∣ 1000 ∨ 1000 ∣ flood.rate

instance (flood : CommandFlood) : Decidable flood.Even :=
  inferInstanceAs (Decidable (_ ∨ _))

/-- Instants that do not go back, within what 64 bits count. -/
structure Instants (flood : CommandFlood) (start : ℕ) (polls : List ℕ) : Prop where
  sorted : polls.Pairwise (· ≤ ·)
  from_start : ∀ now ∈ polls, start ≤ now
  countable : ∀ now ∈ polls, (now - start) * flood.rate ≤ u64Max

/-- No window of `span` milliseconds sees more than the burst and what is regained in it. -/
def CommandFlood.Bounds (flood : CommandFlood) (taken : List ℕ) : Prop :=
  ∀ first span, (taken.countP fun now => first ≤ now ∧ now ≤ first + span) ≤
    flood.burst + (span * flood.rate + 999) / 1000

/-! ## What a refill credits -/

section

variable {bucket : TokenBucket} {now : ℕ}

/-- Within what 64 bits count, nothing saturates. -/
theorem TokenBucket.credited_eq (within : (now - bucket.refilledTo) * bucket.flood.rate ≤ u64Max) :
    bucket.credited now = (now - bucket.refilledTo) * bucket.flood.rate / 1000 := by
  have pos := bucket.flood.rate_pos
  have elapsed : now - bucket.refilledTo ≤ u64Max := (Nat.le_mul_of_pos_right _ pos).trans within
  rw [credited, u64SaturatingMul, Nat.min_eq_left elapsed, Nat.min_eq_left within]

theorem TokenBucket.refill_refilledTo
    (within : (now - bucket.refilledTo) * bucket.flood.rate ≤ u64Max) :
    (bucket.refill now).refilledTo =
      bucket.refilledTo + bucket.credited now * 1000 / bucket.flood.rate := by
  have credit : bucket.credited now * 1000 ≤ u64Max := by
    rw [credited_eq within]
    exact (Nat.div_mul_le_self _ _).trans within
  simp only [refill, u64SaturatingMul, Nat.min_eq_left credit]

/-- An even rate is credited exactly: what is left over is worth less than a token. -/
theorem CommandFlood.Even.dvd {flood : CommandFlood} (even : flood.Even) (elapsed : ℕ) :
    flood.rate ∣ elapsed * flood.rate / 1000 * 1000 := by
  rcases even with whole | whole
  · exact whole.mul_left _
  · rw [Nat.div_mul_cancel (whole.mul_left _)]
    exact Nat.dvd_mul_left _ _

/-- What a refill does, while 64 bits count the time since the last. -/
structure Refilled (bucket : TokenBucket) (now credit : ℕ) (after : TokenBucket) : Prop where
  flood : after.flood = bucket.flood
  moved : (after.refilledTo - bucket.refilledTo) * bucket.flood.rate = credit * 1000
  forward : bucket.refilledTo ≤ after.refilledTo
  not_past : after.refilledTo ≤ now
  left : (now - after.refilledTo) * bucket.flood.rate < 1000
  gained : after.tokens ≤ bucket.tokens + credit
  bounded : after.tokens ≤ bucket.flood.burst

theorem TokenBucket.refill_refilled (even : bucket.flood.Even) (old : bucket.refilledTo ≤ now)
    (within : (now - bucket.refilledTo) * bucket.flood.rate ≤ u64Max) :
    Refilled bucket now (bucket.credited now) (bucket.refill now) := by
  have pos := bucket.flood.rate_pos
  have reached := refill_refilledTo within
  have credit := credited_eq within
  -- the milliseconds credited, worth exactly the tokens credited
  obtain ⟨moved, worth⟩ := even.dvd (now - bucket.refilledTo)
  rw [← credit] at worth
  rw [worth, Nat.mul_div_cancel_left _ pos] at reached
  have worth : bucket.credited now * 1000 = moved * bucket.flood.rate := by
    rw [worth, Nat.mul_comm]
  have floor : bucket.credited now * 1000 ≤ (now - bucket.refilledTo) * bucket.flood.rate := by
    rw [credit]
    exact Nat.div_mul_le_self _ _
  have rest : (now - bucket.refilledTo) * bucket.flood.rate < bucket.credited now * 1000 + 1000 := by
    rw [credit]
    omega
  have short : moved ≤ now - bucket.refilledTo := Nat.le_of_mul_le_mul_right (worth ▸ floor) pos
  refine ⟨rfl, ?_, by omega, by omega, ?_, ?_, Nat.min_le_right _ _⟩
  · rw [reached, Nat.add_sub_cancel_left, worth]
  · have split : now - (bucket.refill now).refilledTo = now - bucket.refilledTo - moved := by omega
    rw [split, Nat.sub_mul]
    omega
  · exact (Nat.min_le_left _ _).trans (Nat.min_le_left _ _)

/-- Asked again at the same instant, the bucket regains nothing more. -/
theorem TokenBucket.refill_again (even : bucket.flood.Even) (old : bucket.refilledTo ≤ now)
    (within : (now - bucket.refilledTo) * bucket.flood.rate ≤ u64Max) :
    (bucket.refill now).refill now = bucket.refill now := by
  have refilled := refill_refilled even old within
  have burst_le := bucket.flood.burst_le
  have bounded := refilled.bounded
  have small : (now - (bucket.refill now).refilledTo) * (bucket.refill now).flood.rate < 1000 :=
    refilled.left
  have nothing : (bucket.refill now).credited now = 0 := by
    rw [credited_eq (by unfold u64Max; omega), Nat.div_eq_of_lt small]
  generalize bucket.refill now = after at *
  obtain ⟨flood, tokens, refilledTo⟩ := after
  obtain rfl : flood = bucket.flood := refilled.flood
  simp only [refill, nothing, u64SaturatingMul, u64SaturatingAdd, Nat.zero_mul, Nat.zero_min, Nat.zero_div,
    Nat.add_zero, TokenBucket.mk.injEq, true_and, and_true]
  unfold maxCommandFloodTokens at burst_le
  simp only at bounded
  unfold u64Max
  omega

end

/-! ## Even rates are kept -/

section

variable {bucket : TokenBucket} {polls : List ℕ} {last : ℕ}

theorem TokenBucket.taken_cons (bucket : TokenBucket) (now : ℕ) (later : List ℕ) :
    bucket.taken (now :: later) = if 0 < (bucket.refill now).tokens then
      now :: (bucket.refill now).take.taken later else (bucket.refill now).taken later := by
  simp only [taken, blockedUntil]
  split <;> rename_i outcome <;> split at outcome <;> rename_i filled
  · cases outcome
    rw [if_pos filled]
  · cases outcome
  · cases outcome
  · cases outcome
    rw [if_neg filled]

theorem TokenBucket.mem_of_mem_taken {now : ℕ} (among : now ∈ bucket.taken polls) : now ∈ polls := by
  induction polls generalizing bucket with
  | nil => exact among
  | cons first later ih =>
    rw [taken_cons] at among
    split at among
    · rcases mem_cons.mp among with rfl | after
      · exact mem_cons_self
      · exact mem_cons_of_mem _ (ih after)
    · exact mem_cons_of_mem _ (ih among)

/-- What the bucket can give out by `last`, in thousandths of a token. -/
def TokenBucket.credit (bucket : TokenBucket) (last : ℕ) : ℕ :=
  bucket.tokens * 1000 + (last - bucket.refilledTo) * bucket.flood.rate

/-- The polls start no earlier than the bucket, and 64 bits count up to each. -/
def TokenBucket.Ahead (bucket : TokenBucket) (polls : List ℕ) : Prop :=
  ∀ now ∈ polls, bucket.refilledTo ≤ now ∧ (now - bucket.refilledTo) * bucket.flood.rate ≤ u64Max

/-- A refill that keeps behind the polls leaves them ahead. -/
theorem TokenBucket.Ahead.refill {now : ℕ} {later : List ℕ} (ahead : bucket.Ahead (now :: later))
    (even : bucket.flood.Even) (sorted : (now :: later).Pairwise (· ≤ ·)) :
    (bucket.refill now).Ahead later := by
  intro other among
  have here := ahead now mem_cons_self
  have there := ahead other (mem_cons_of_mem _ among)
  have refilled := refill_refilled even here.1 here.2
  refine ⟨refilled.not_past.trans ((pairwise_cons.mp sorted).1 other among), ?_⟩
  refine le_trans (Nat.mul_le_mul_right _ ?_) there.2
  exact Nat.sub_le_sub_left refilled.forward other

/-- A refill gains no credit towards a later instant. -/
theorem TokenBucket.credit_refill {now : ℕ} (even : bucket.flood.Even)
    (old : bucket.refilledTo ≤ now) (within : (now - bucket.refilledTo) * bucket.flood.rate ≤ u64Max)
    (before : now ≤ last) : (bucket.refill now).credit last ≤ bucket.credit last := by
  have refilled := refill_refilled even old within
  have forward := refilled.forward
  have not_past := refilled.not_past
  have gained := refilled.gained
  have moved := refilled.moved
  have split : (last - bucket.refilledTo) * bucket.flood.rate =
      (last - (bucket.refill now).refilledTo) * bucket.flood.rate + bucket.credited now * 1000 := by
    rw [← moved, ← Nat.add_mul]
    congr 1
    omega
  unfold credit
  rw [split, refilled.flood]
  omega

/-- No more is taken up to an instant than the bucket can give out by then. -/
theorem TokenBucket.taken_le_credit (even : bucket.flood.Even) (sorted : polls.Pairwise (· ≤ ·))
    (ahead : bucket.Ahead polls) :
    (bucket.taken polls).countP (· ≤ last) * 1000 ≤ bucket.credit last := by
  induction polls generalizing bucket with
  | nil => simp [taken]
  | cons now later ih =>
    have here := ahead now mem_cons_self
    have tail := (pairwise_cons.mp sorted).2
    have rest := ahead.refill even sorted
    rcases Nat.lt_or_ge last now with past | before
    · -- every later poll is past `last` too
      have none_counted : (bucket.taken (now :: later)).countP (· ≤ last) = 0 := by
        rw [countP_eq_zero]
        intro other among
        have := mem_of_mem_taken among
        rcases mem_cons.mp this with rfl | after
        · simpa using past
        · have := (pairwise_cons.mp sorted).1 other after
          simpa using past.trans_le this
      omega
    · have kept := credit_refill even here.1 here.2 before
      rw [taken_cons]
      split
      · rename_i filled
        have after : ((bucket.refill now).take.taken later).countP (· ≤ last) * 1000 ≤
          (bucket.refill now).take.credit last := ih even tail rest
        have spent : (bucket.refill now).take.credit last + 1000 = (bucket.refill now).credit last := by
          unfold credit take
          simp only
          omega
        rw [countP_cons_of_pos (by simpa using before), Nat.succ_mul]
        exact (Nat.add_le_add_right after 1000).trans (spent.trans_le kept)
      · exact le_trans (ih even tail rest) kept

/-- What is taken from an instant on starts from a full bucket at most, and less
than a token's worth of time not yet credited. -/
theorem TokenBucket.bounds_taken (even : bucket.flood.Even) (sorted : polls.Pairwise (· ≤ ·))
    (ahead : bucket.Ahead polls) : bucket.flood.Bounds (bucket.taken polls) := by
  intro first span
  induction polls generalizing bucket with
  | nil => simp [taken]
  | cons now later ih =>
    have here := ahead now mem_cons_self
    have tail := (pairwise_cons.mp sorted).2
    have rest := ahead.refill even sorted
    rcases Nat.lt_or_ge now first with early | inside
    · rw [taken_cons]
      split
      · rw [countP_cons_of_neg (by simp [Nat.not_le.mpr early])]
        exact ih (show (bucket.refill now).take.flood.Even from even) tail rest
      · exact ih (show (bucket.refill now).flood.Even from even) tail rest
    · have refilled := refill_refilled even here.1 here.2
      have same : bucket.taken (now :: later) = (bucket.refill now).taken (now :: later) := by
        rw [taken_cons, taken_cons, refill_again even here.1 here.2]
      have again : (bucket.refill now).Ahead (now :: later) := by
        intro other among
        rcases mem_cons.mp among with rfl | after
        · refine ⟨refilled.not_past, ?_⟩
          have left : (other - (bucket.refill other).refilledTo) * (bucket.refill other).flood.rate <
            1000 := refilled.left
          unfold u64Max
          omega
        · exact rest other after
      have counted : ((bucket.refill now).taken (now :: later)).countP (· ≤ first + span) * 1000 ≤
        (bucket.refill now).credit (first + span) := taken_le_credit even sorted again
      have fewer : (bucket.taken (now :: later)).countP
          (fun now => first ≤ now ∧ now ≤ first + span) ≤
          ((bucket.refill now).taken (now :: later)).countP (· ≤ first + span) := by
        rw [same]
        exact countP_mono_left fun other _ counts => by simp_all
      have time : (first + span - (bucket.refill now).refilledTo) * bucket.flood.rate ≤
          span * bucket.flood.rate + (now - (bucket.refill now).refilledTo) * bucket.flood.rate := by
        rw [← Nat.add_mul]
        exact Nat.mul_le_mul_right _ (by omega)
      have full := refilled.bounded
      have left := refilled.left
      unfold credit at counted
      rw [refilled.flood] at counted
      omega

end

/-! ## No other rate is -/

/-- The whole milliseconds of one token. -/
def CommandFlood.gap (flood : CommandFlood) : ℕ := 1000 / flood.rate

/-- `count` polls, each a millisecond after the whole milliseconds of another token. -/
def creep (gap start : ℕ) : ℕ → List ℕ
  | 0 => []
  | count + 1 => (start + gap + 1) :: creep gap (start + gap) count

theorem mem_creep {gap start count now : ℕ} (among : now ∈ creep gap start count) :
    start < now ∧ now ≤ start + count * gap + 1 := by
  induction count generalizing start with
  | zero => cases among
  | succ count ih =>
    have step : (count + 1) * gap = count * gap + gap := Nat.succ_mul _ _
    rcases mem_cons.mp among with rfl | later
    · omega
    · have bounds := ih later
      omega

theorem sorted_creep (gap start count : ℕ) : (creep gap start count).Pairwise (· ≤ ·) := by
  induction count generalizing start with
  | zero => exact .nil
  | succ count ih =>
    refine pairwise_cons.mpr ⟨fun now among => ?_, ih (start + gap)⟩
    have bounds := mem_creep among
    omega

theorem length_creep (gap start count : ℕ) : (creep gap start count).length = count := by
  induction count generalizing start with
  | zero => rfl
  | succ count ih => exact congrArg (· + 1) (ih (start + gap))

section

variable {flood : CommandFlood}

/-- A millisecond more than the whole milliseconds of a token regains a token or
more, and `refilled_to` moves on by those whole milliseconds alone. -/
theorem CommandFlood.gap_spec (uneven : ¬ flood.Even) :
    flood.gap * flood.rate ≤ 999 ∧ 1 ≤ (flood.gap + 1) * flood.rate / 1000 ∧
      (flood.gap + 1) * flood.rate / 1000 * 1000 / flood.rate = flood.gap := by
  have pos := flood.rate_pos
  obtain ⟨nodvd, nodvd'⟩ := not_or.mp uneven
  have below : flood.gap * flood.rate ≤ 1000 := Nat.div_mul_le_self 1000 flood.rate
  have apart : flood.gap * flood.rate ≠ 1000 := fun same => nodvd ⟨_, by rw [← same, Nat.mul_comm]⟩
  have next : 1000 < (flood.gap + 1) * flood.rate := by
    rw [Nat.mul_comm]
    exact Nat.lt_mul_div_succ 1000 pos
  refine ⟨by omega, by omega, ?_⟩
  rcases Nat.lt_or_ge flood.rate 1000 with slow | fast
  · -- one token
    have one : (flood.gap + 1) * flood.rate / 1000 = 1 := by
      rw [Nat.add_mul, Nat.one_mul] at next ⊢
      omega
    rw [one, Nat.one_mul, gap]
  · -- several tokens, together worth less than a millisecond
    have none_whole : flood.gap = 0 := Nat.div_eq_of_lt (by
      have : flood.rate ≠ 1000 := fun same => nodvd' (same ▸ Nat.dvd_refl _)
      omega)
    rw [none_whole, Nat.zero_add, Nat.one_mul]
    refine Nat.div_eq_of_lt (lt_of_le_of_ne (Nat.div_mul_le_self _ _) fun same => nodvd' ?_)
    exact ⟨_, by rw [← same, Nat.mul_comm]⟩

theorem TokenBucket.taken_creep {bucket : TokenBucket} (uneven : ¬ bucket.flood.Even)
    (count : ℕ) :
    bucket.taken (creep bucket.flood.gap bucket.refilledTo count) =
      creep bucket.flood.gap bucket.refilledTo count := by
  induction count generalizing bucket with
  | zero => rfl
  | succ count ih =>
    obtain ⟨small, some_regained, moved⟩ := CommandFlood.gap_spec uneven
    have elapsed : bucket.refilledTo + bucket.flood.gap + 1 - bucket.refilledTo =
      bucket.flood.gap + 1 := by omega
    have rate_le := bucket.flood.rate_le.trans bucket.flood.burst_le
    have rate_pos := bucket.flood.rate_pos
    have burst := bucket.flood.rate_le
    have within : (bucket.refilledTo + bucket.flood.gap + 1 - bucket.refilledTo) *
        bucket.flood.rate ≤ u64Max := by
      rw [elapsed, Nat.add_mul]
      unfold maxCommandFloodTokens at rate_le
      unfold u64Max
      omega
    have credit := credited_eq within
    have reached := refill_refilledTo within
    rw [credit, elapsed, moved] at reached
    have filled : 0 < (bucket.refill (bucket.refilledTo + bucket.flood.gap + 1)).tokens := by
      simp only [refill, u64SaturatingAdd, credit, elapsed]
      unfold u64Max
      omega
    rw [creep, taken_cons, if_pos filled]
    have same : (bucket.refill (bucket.refilledTo + bucket.flood.gap + 1)).flood = bucket.flood := rfl
    generalize bucket.refill (bucket.refilledTo + bucket.flood.gap + 1) = after at *
    have later : after.take.taken (creep after.flood.gap after.refilledTo count) =
      creep after.flood.gap after.refilledTo count := ih (same ▸ uneven)
    rw [same, reached] at later
    rw [later]

/-- A bucket asked at the instant it is filled to gives out what it holds. -/
theorem TokenBucket.taken_replicate (flood : CommandFlood) (now tokens : ℕ)
    (bounded : tokens ≤ flood.burst) (later : List ℕ) :
    taken ⟨flood, tokens, now⟩ (List.replicate tokens now ++ later) =
      List.replicate tokens now ++ taken ⟨flood, 0, now⟩ later := by
  induction tokens with
  | zero => rfl
  | succ tokens ih =>
    have unchanged : refill ⟨flood, tokens + 1, now⟩ now = ⟨flood, tokens + 1, now⟩ := by
      have burst_le := flood.burst_le
      unfold maxCommandFloodTokens at burst_le
      simp only [refill, credited, u64SaturatingMul, u64SaturatingAdd, Nat.sub_self, Nat.zero_min,
        Nat.zero_mul, Nat.zero_div, Nat.add_zero, TokenBucket.mk.injEq, true_and, and_true]
      unfold u64Max
      omega
    rw [replicate_succ, cons_append, taken_cons, unchanged, if_pos (Nat.succ_pos _), cons_append]
    exact congrArg (now :: ·) (ih (by omega))

/-- Polls at which a bucket of an uneven rate gives out more than its rate. -/
def CommandFlood.overdraw (flood : CommandFlood) : List ℕ :=
  List.replicate flood.burst 0 ++ creep flood.gap 0 (flood.rate + 1000)

theorem CommandFlood.instants_overdraw (uneven : ¬ flood.Even) : Instants flood 0 flood.overdraw where
  sorted := by
    refine pairwise_append.mpr ⟨pairwise_replicate.mpr (.inr le_rfl), sorted_creep _ _ _, ?_⟩
    intro first among now _
    exact eq_of_mem_replicate among ▸ Nat.zero_le now
  from_start := fun now _ => Nat.zero_le now
  countable := by
    have rate_le := flood.rate_le.trans flood.burst_le
    have small := (gap_spec uneven).1
    intro now among
    rcases mem_append.mp among with first | later
    · rw [eq_of_mem_replicate first]
      simp
    have bounds := (mem_creep later).2
    have scaled : (now - 0) * flood.rate ≤
        (flood.rate + 1000) * (flood.gap * flood.rate) + flood.rate := by
      calc (now - 0) * flood.rate ≤ ((flood.rate + 1000) * flood.gap + 1) * flood.rate :=
            Nat.mul_le_mul_right _ (by omega)
        _ = _ := by rw [Nat.add_mul, Nat.one_mul, Nat.mul_assoc]
    have product : (flood.rate + 1000) * (flood.gap * flood.rate) ≤ (flood.rate + 1000) * 999 :=
      Nat.mul_le_mul_left _ small
    unfold maxCommandFloodTokens at rate_le
    unfold u64Max
    omega

theorem CommandFlood.overdraw_exceeds (uneven : ¬ flood.Even) :
    ¬ flood.Bounds ((TokenBucket.new flood 0).taken flood.overdraw) := by
  intro bounds
  have all_taken : (TokenBucket.new flood 0).taken flood.overdraw = flood.overdraw := by
    rw [overdraw, TokenBucket.new, TokenBucket.taken_replicate flood 0 flood.burst le_rfl]
    congr 1
    exact TokenBucket.taken_creep uneven _
  have window := bounds 0 ((flood.rate + 1000) * flood.gap + 1)
  have inside : (flood.overdraw.countP fun now =>
      0 ≤ now ∧ now ≤ 0 + ((flood.rate + 1000) * flood.gap + 1)) = flood.overdraw.length := by
    rw [countP_eq_length]
    intro now among
    rcases mem_append.mp among with first | later
    · simp [eq_of_mem_replicate first]
    · have := (mem_creep later).2
      simpa [Nat.add_assoc] using this
  have product : (flood.rate + 1000) * (flood.gap * flood.rate) ≤ (flood.rate + 1000) * 999 :=
    Nat.mul_le_mul_left _ (gap_spec uneven).1
  rw [all_taken, inside, overdraw, length_append, length_replicate, length_creep, Nat.add_mul,
    Nat.one_mul, Nat.mul_assoc] at window
  omega

/-- The bucket keeps its rate, however it is polled, exactly if its rate is even. -/
theorem CommandFlood.keeps_rate_iff (flood : CommandFlood) :
    (∀ start polls, Instants flood start polls →
      flood.Bounds ((TokenBucket.new flood start).taken polls)) ↔ flood.Even := by
  constructor
  · intro kept
    by_contra uneven
    exact overdraw_exceeds uneven (kept 0 flood.overdraw (instants_overdraw uneven))
  · intro even start polls instants
    refine TokenBucket.bounds_taken even instants.sorted fun now among => ?_
    exact ⟨instants.from_start now among, instants.countable now among⟩

end

/-- Ten lines a second, and twenty at once. -/
def tenASecond : CommandFlood := ⟨20, 10, by decide, by decide, by decide⟩

theorem CommandFlood.keeps_rate_tenASecond :
    tenASecond.Bounds ((TokenBucket.new tenASecond 0).taken [0, 0, 40, 250]) :=
  (CommandFlood.keeps_rate_iff tenASecond).mpr (by decide) 0 [0, 0, 40, 250]
    ⟨by decide, by decide, by decide⟩

/-- Three lines for every two milliseconds. -/
def threeInTwo : CommandFlood := ⟨1500, 1500, by decide, by decide, by decide⟩

/-- A millisecond regains one token and moves `refilled_to` by none, so the same
millisecond is credited at every poll: more than the burst goes at one instant. -/
theorem CommandFlood.threeInTwo_exceeds_burst :
    Instants threeInTwo 0 (List.replicate 1501 1) ∧
      threeInTwo.burst + (0 * threeInTwo.rate + 999) / 1000 <
        ((TokenBucket.new threeInTwo 0).taken (List.replicate 1501 1)).countP
          (fun now => 1 ≤ now ∧ now ≤ 1 + 0) := by
  refine ⟨⟨pairwise_replicate.mpr (.inr le_rfl), fun _ _ => Nat.zero_le _, ?_⟩, by decide +kernel⟩
  intro now among
  rw [eq_of_mem_replicate among]
  decide

/-! ## The instant a token is back -/

namespace TokenBucket

/-- The buckets that asking and taking lead to, each with the last instant it was asked
at.  Instants may be counted from the start and rounded down: `refilled_to` is a whole
number of milliseconds from it. -/
inductive Reached (flood : CommandFlood) (start : ℕ) : TokenBucket → ℕ → Prop
  | new : Reached flood start (new flood start) start
  | asked {bucket : TokenBucket} {last now : ℕ} : Reached flood start bucket last → last ≤ now →
    Reached flood start (bucket.blockedUntil now).2 now
  | took {bucket : TokenBucket} {last : ℕ} : Reached flood start bucket last →
    Reached flood start bucket.take last

variable {bucket : TokenBucket} {now : ℕ}

theorem blockedUntil_snd : (bucket.blockedUntil now).2 = bucket.refill now := by
  rw [blockedUntil]
  split <;> rfl

/-- The watermark never passes the instant asked at. -/
theorem Reached.refilledTo_le {flood : CommandFlood} {start last : ℕ}
    (reached : Reached flood start bucket last) : bucket.refilledTo ≤ last := by
  induction reached with
  | new => exact le_rfl
  | @asked bucket last now _ later ih =>
    have pos := bucket.flood.rate_pos
    have credit : u64SaturatingMul (bucket.credited now) 1000 ≤
        (now - bucket.refilledTo) * bucket.flood.rate :=
      calc u64SaturatingMul (bucket.credited now) 1000 ≤ bucket.credited now * 1000 :=
            Nat.min_le_left _ _
        _ ≤ min (now - bucket.refilledTo) u64Max * bucket.flood.rate :=
            (Nat.div_mul_le_self _ _).trans (Nat.min_le_left _ _)
        _ ≤ (now - bucket.refilledTo) * bucket.flood.rate :=
            Nat.mul_le_mul_right _ (Nat.min_le_left _ _)
    have passed := Nat.div_le_of_le_mul (Nat.mul_comm _ bucket.flood.rate ▸ credit)
    rw [blockedUntil_snd]
    simp only [refill]
    omega
  | took _ ih => exact ih

/-- Less time than a token takes, counted past 64 bits or not, is worth none. -/
theorem credited_eq_zero_iff : bucket.credited now = 0 ↔
    now - bucket.refilledTo < (1000 + bucket.flood.rate - 1) / bucket.flood.rate := by
  have pos := bucket.flood.rate_pos
  have wide : 1000 ≤ u64Max := by decide
  rw [Nat.lt_iff_add_one_le, Nat.le_div_iff_mul_le pos, Nat.add_mul, credited, u64SaturatingMul,
    Nat.div_eq_zero_iff_lt (by decide)]
  rcases Nat.le_total (now - bucket.refilledTo) u64Max with fits | far
  · rw [Nat.min_eq_left fits]
    omega
  have most := Nat.mul_le_mul far pos
  have least := Nat.le_mul_of_pos_right u64Max pos
  rw [Nat.min_eq_right far]
  omega

/-- An empty bucket to which nothing is credited stays as it is. -/
theorem blockedUntil_eq (empty : bucket.tokens = 0) (none : bucket.credited now = 0) :
    bucket.blockedUntil now =
      (some (bucket.refilledTo + (1000 + bucket.flood.rate - 1) / bucket.flood.rate), bucket) := by
  obtain ⟨flood, tokens, refilledTo⟩ := bucket
  obtain rfl : tokens = 0 := empty
  simp [blockedUntil, refill, none, u64SaturatingMul, u64SaturatingAdd]

theorem blockedUntil_eq_none_iff : (bucket.blockedUntil now).1 = none ↔
    0 < bucket.tokens ∨ 0 < bucket.credited now := by
  have pos := bucket.flood.rate_pos
  have le := bucket.flood.rate_le
  have wide : 0 < u64Max := by decide
  have held : 0 < (bucket.refill now).tokens ↔ 0 < bucket.tokens ∨ 0 < bucket.credited now := by
    simp only [refill, u64SaturatingAdd]
    omega
  rw [← held, blockedUntil]
  split <;> simp_all

/-- The instant that is named is when a token is there: it is ahead, by no more than one
token takes; every question up to it is answered the same and changes nothing; and the one
asked then is answered at once. -/
theorem blocked_until_a_token_is_back {flood : CommandFlood} {start last t : ℕ}
    {bucket : TokenBucket} {now : ℕ} (reached : Reached flood start bucket last)
    (later : last ≤ now) (blocked : (bucket.blockedUntil now).1 = some t) :
    now < t ∧ t ≤ now + (1000 + bucket.flood.rate - 1) / bucket.flood.rate ∧
      (∀ again, now ≤ again → again < t →
        (bucket.blockedUntil now).2.blockedUntil again = (some t, (bucket.blockedUntil now).2)) ∧
      ((bucket.blockedUntil now).2.blockedUntil t).1 = none := by
  have marked := reached.refilledTo_le
  obtain ⟨empty, uncredited⟩ : bucket.tokens = 0 ∧ bucket.credited now = 0 := by
    have some_wait : (bucket.blockedUntil now).1 ≠ none := by simp [blocked]
    rw [Ne, blockedUntil_eq_none_iff] at some_wait
    omega
  rw [blockedUntil_eq empty uncredited] at blocked ⊢
  cases blocked
  dsimp only
  have ahead := credited_eq_zero_iff.mp uncredited
  refine ⟨by omega, by omega, fun again _ before => ?_, ?_⟩
  · exact blockedUntil_eq empty (credited_eq_zero_iff.mpr (by omega))
  · refine blockedUntil_eq_none_iff.mpr (.inr (Nat.pos_of_ne_zero fun none => ?_))
    have before := credited_eq_zero_iff.mp none
    omega

end TokenBucket

/-- Three tokens a second: a bucket that was emptied at once is asked again. -/
theorem TokenBucket.blocked_until_a_token_is_back_one :
    ∃ bucket, Reached ⟨3, 3, by decide, by decide, by decide⟩ 0 bucket 0 ∧
      (bucket.blockedUntil 100).1 = some 334 ∧
      ((bucket.blockedUntil 100).2.blockedUntil 334).1 = none := by
  refine ⟨_, .took (.took (.took .new)), rfl, ?_⟩
  exact (blocked_until_a_token_is_back (.took (.took (.took .new))) (Nat.zero_le 100) rfl).2.2.2

/-! ## A client within its allowance -/

/-- A bucket without roundings, of thousandths of a token, lets every poll through: it
held `level` at `last`. -/
def CommandFlood.Allows (flood : CommandFlood) (level last : ℕ) : List ℕ → Prop
  | [] => True
  | now :: later =>
    let level := min (level + (now - last) * flood.rate) (flood.burst * 1000)
    last ≤ now ∧ 1000 ≤ level ∧ flood.Allows (level - 1000) now later

/-- The rounded bucket is worth at least the exact one: `refilled_to` moves on by no more
than was credited. -/
theorem TokenBucket.Reached.taken_eq {flood : CommandFlood} {start last level : ℕ}
    {bucket : TokenBucket} {polls : List ℕ} (reached : Reached flood start bucket last)
    (worth : level + bucket.refilledTo * bucket.flood.rate ≤
      bucket.tokens * 1000 + last * bucket.flood.rate)
    (allows : bucket.flood.Allows level last polls) : bucket.taken polls = polls := by
  induction polls generalizing bucket last level with
  | nil => rfl
  | cons now later ih =>
    obtain ⟨le, enough, allows⟩ := allows
    have asked : Reached flood start (bucket.refill now) now := blockedUntil_snd ▸ reached.asked le
    have behind := Nat.mul_le_mul_right bucket.flood.rate asked.refilledTo_le
    have elapsed := Nat.mul_le_mul_right bucket.flood.rate le
    rw [Nat.sub_mul] at enough allows
    have moved : (bucket.refill now).refilledTo * bucket.flood.rate ≤
        bucket.refilledTo * bucket.flood.rate + bucket.credited now * 1000 := by
      simp only [refill, Nat.add_mul]
      exact Nat.add_le_add_left ((Nat.div_mul_le_self _ _).trans (Nat.min_le_left _ _)) _
    have pos := bucket.flood.rate_pos
    have held : 0 < bucket.tokens ∨ 0 < bucket.credited now := by
      by_contra empty
      have early := credited_eq_zero_iff.mp (show bucket.credited now = 0 by omega)
      rw [Nat.lt_iff_add_one_le, Nat.le_div_iff_mul_le pos, Nat.add_mul, Nat.sub_mul] at early
      omega
    have passes : bucket.blockedUntil now = (none, bucket.refill now) :=
      Prod.ext (blockedUntil_eq_none_iff.mpr held) blockedUntil_snd
    rw [taken, passes]
    refine congrArg (now :: ·) (ih asked.took ?_ allows)
    have le := bucket.flood.rate_le
    have burst_le := bucket.flood.burst_le
    simp only [take, refill, u64SaturatingAdd, u64Max, maxCommandFloodTokens]
      at moved behind burst_le ⊢
    omega

/-- Whatever the rate, a client that an exact bucket would let through is never made
to wait. -/
theorem CommandFlood.never_waits {flood : CommandFlood} {start : ℕ} {polls : List ℕ}
    (allows : flood.Allows (flood.burst * 1000) start polls) :
    (TokenBucket.new flood start).taken polls = polls :=
  TokenBucket.Reached.new.taken_eq le_rfl allows

theorem CommandFlood.never_waits_uneven :
    (TokenBucket.new ⟨3, 3, by decide, by decide, by decide⟩ 0).taken [0, 0, 0, 334, 667] =
      [0, 0, 0, 334, 667] :=
  never_waits (by simp [Allows])

end E6irc.Meter
