import Mathlib.Algebra.Ring.Int.Defs
import Mathlib.Algebra.Ring.Nat
import Mathlib.Data.List.Basic
import Mathlib.Data.List.Induction
import Mathlib.Order.Nat

/-! The in-memory rate limiter. A key has one counter and the time it was started at; the counter starts anew with
the first call that finds it older than the window, so that the attempts just before that call are forgotten. -/

namespace IronDrive

/-- Instants and durations are in nanoseconds. -/
def nanosPerSec : Nat := 1000000000

def asSecs (duration : Nat) : Nat := duration / nanosPerSec

structure RateLimiter where
  attempts : String → Option (Nat × Nat)

/-- A call of `check`, with the time it is made at. -/
structure CheckCall where
  key : String
  maxAttempts : Nat
  windowSecs : Nat
  now : Nat
  deriving DecidableEq

namespace RateLimiter

def new : RateLimiter := ⟨fun _ => none⟩

def insert (limiter : RateLimiter) (key : String) (entry : Nat × Nat) : RateLimiter :=
  ⟨fun k => if k = key then some entry else limiter.attempts k⟩

/-- The counter of a key and the time it was started at; a key without one gets it now. -/
def entry (limiter : RateLimiter) (key : String) (now : Nat) : Nat × Nat :=
  (limiter.attempts key).getD (0, now)

/-- Whether the call is within the limit, and the limiter after it. -/
def check (limiter : RateLimiter) (call : CheckCall) : Bool × RateLimiter :=
  let (count, start) := limiter.entry call.key call.now
  if asSecs (call.now - start) > call.windowSecs then (true, limiter.insert call.key (1, call.now))
  else if count < call.maxAttempts then (true, limiter.insert call.key (count + 1, start))
  else (false, limiter.insert call.key (count, start))

/-- The call finds the window of its key over. -/
def Expired (limiter : RateLimiter) (call : CheckCall) : Prop :=
  asSecs (call.now - (limiter.entry call.key call.now).2) > call.windowSecs

instance (limiter : RateLimiter) (call : CheckCall) : Decidable (limiter.Expired call) :=
  inferInstanceAs (Decidable (_ > _))

variable {limiter : RateLimiter} {call : CheckCall} {key : String}

@[simp]
theorem insert_same (entry : Nat × Nat) : (limiter.insert key entry).attempts key = some entry := by
  simp only [insert, if_true]

theorem check_expired (h : limiter.Expired call) :
    limiter.check call = (true, limiter.insert call.key (1, call.now)) := by
  rw [check]
  exact if_pos h

theorem check_below (h : ¬limiter.Expired call) (hcount : (limiter.entry call.key call.now).1 < call.maxAttempts) :
    limiter.check call = (true, limiter.insert call.key
      ((limiter.entry call.key call.now).1 + 1, (limiter.entry call.key call.now).2)) := by
  rw [check]
  exact (if_neg h).trans (if_pos hcount)

theorem check_full (h : ¬limiter.Expired call) (hcount : ¬(limiter.entry call.key call.now).1 < call.maxAttempts) :
    limiter.check call = (false, limiter.insert call.key (limiter.entry call.key call.now)) := by
  rw [check]
  exact (if_neg h).trans (if_neg hcount)

/-- A call leaves the counters of the other keys alone. -/
theorem check_other (h : call.key ≠ key) : (limiter.check call).2.attempts key = limiter.attempts key := by
  have hinsert : ∀ entry, (limiter.insert call.key entry).attempts key = limiter.attempts key :=
    fun entry => if_neg (Ne.symm h)
  by_cases hexpired : limiter.Expired call
  · rw [check_expired hexpired, hinsert]
  by_cases hcount : (limiter.entry call.key call.now).1 < call.maxAttempts
  · rw [check_below hexpired hcount, hinsert]
  · rw [check_full hexpired hcount, hinsert]

/-- The next call: the limiter after it, and the calls that returned true so far. -/
def serve (s : RateLimiter × List CheckCall) (call : CheckCall) : RateLimiter × List CheckCall :=
  ((s.1.check call).2, if (s.1.check call).1 then s.2 ++ [call] else s.2)

def serveAll (calls : List CheckCall) : RateLimiter × List CheckCall := calls.foldl serve (new, [])

/-- The limiter after the calls. -/
def limiterAfter (calls : List CheckCall) : RateLimiter := (serveAll calls).1

/-- The calls for the key that returned true. -/
def admitted (key : String) (calls : List CheckCall) : List CheckCall :=
  (serveAll calls).2.filter fun call => call.key = key

variable {calls : List CheckCall} {maxAttempts windowSecs : Nat}

theorem serveAll_snoc : serveAll (calls ++ [call]) = serve (serveAll calls) call := by
  rw [serveAll, List.foldl_append]
  rfl

theorem limiterAfter_snoc : limiterAfter (calls ++ [call]) = ((limiterAfter calls).check call).2 := by
  rw [limiterAfter, serveAll_snoc]
  rfl

theorem admitted_snoc_other (h : call.key ≠ key) : admitted key (calls ++ [call]) = admitted key calls := by
  simp only [admitted, serveAll_snoc, serve]
  split
  · rw [List.filter_append, List.filter_cons_of_neg (by simpa using h), List.filter_nil, List.append_nil]
  · rfl

theorem admitted_snoc_true (hkey : call.key = key) (h : ((limiterAfter calls).check call).1 = true) :
    admitted key (calls ++ [call]) = admitted key calls ++ [call] := by
  rw [limiterAfter] at h
  simp only [admitted, serveAll_snoc, serve, h, if_true, List.filter_append]
  rw [List.filter_cons_of_pos (by simpa using hkey), List.filter_nil]

theorem admitted_snoc_false (h : ((limiterAfter calls).check call).1 = false) :
    admitted key (calls ++ [call]) = admitted key calls := by
  rw [limiterAfter] at h
  simp only [admitted, serveAll_snoc, serve, h, Bool.false_eq_true, if_false]

theorem admitted_snoc (key : String) (calls : List CheckCall) (call : CheckCall) :
    admitted key (calls ++ [call]) = admitted key calls ∨
      admitted key (calls ++ [call]) = admitted key calls ++ [call] := by
  by_cases hkey : call.key = key
  · cases hwithin : ((limiterAfter calls).check call).1 with
    | true => exact Or.inr (admitted_snoc_true hkey hwithin)
    | false => exact Or.inl (admitted_snoc_false hwithin)
  · exact Or.inl (admitted_snoc_other hkey)

theorem mem_of_admitted (h : call ∈ admitted key calls) : call ∈ calls := by
  induction calls using List.reverseRecOn with
  | nil => cases h
  | append_singleton calls last ih =>
      rcases admitted_snoc key calls last with hsame | hallowed
      · rw [hsame] at h
        exact List.mem_append_left _ (ih h)
      · rw [hallowed] at h
        exact List.mem_append.mpr ((List.mem_append.mp h).imp ih id)

/-! ### The sliding window -/

/-- The call is made in the closed interval of that many seconds from the time on. -/
def InInterval (windowSecs start : Nat) (call : CheckCall) : Prop :=
  start ≤ call.now ∧ call.now ≤ start + windowSecs * nanosPerSec

instance (windowSecs start : Nat) (call : CheckCall) : Decidable (InInterval windowSecs start call) :=
  inferInstanceAs (Decidable (_ ∧ _))

/-- No interval of that many seconds has more than so many calls for the key that returned true. -/
def SlidingBound (key : String) (maxAttempts windowSecs : Nat) (calls : List CheckCall) : Prop :=
  ∀ start, ((admitted key calls).filter fun call => InInterval windowSecs start call).length ≤ maxAttempts

/-- A run of calls at non-decreasing times, in which those for the key all have the same limits. -/
structure Limited (key : String) (maxAttempts windowSecs : Nat) (calls : List CheckCall) : Prop where
  ordered : calls.Pairwise fun earlier later => earlier.now ≤ later.now
  limits : ∀ call ∈ calls, call.key = key → call.maxAttempts = maxAttempts ∧ call.windowSecs = windowSecs

/-- The call starts its counter anew although no attempt is allowed at all, or one was allowed less than a window
ago. -/
def StartsEarly (calls : List CheckCall) (call : CheckCall) : Prop :=
  (limiterAfter calls).Expired call ∧
    (call.maxAttempts = 0 ∨
      ∃ earlier ∈ admitted call.key calls, call.now ≤ earlier.now + call.windowSecs * nanosPerSec)

instance (calls : List CheckCall) (call : CheckCall) : Decidable (StartsEarly calls call) :=
  inferInstanceAs (Decidable (_ ∧ _))

/-- No call for the key starts its counter early. -/
def Settled (key : String) (calls : List CheckCall) : Prop :=
  ∀ before call after, calls = before ++ call :: after → call.key = key → ¬StartsEarly before call

/-- The allowed calls: those forgotten, all made more than a window before the counter was started, and those the
counter still counts. -/
def Counter (maxAttempts windowSecs : Nat) (allowed : List CheckCall) (entry : Nat × Nat) : Prop :=
  entry.1 ≤ maxAttempts ∧ ∃ forgotten counted, allowed = forgotten ++ counted ∧ counted.length ≤ entry.1 ∧
    ∀ call ∈ forgotten, call.now + windowSecs * nanosPerSec < entry.2

theorem filter_le_of_counter {allowed : List CheckCall} {entry : Nat × Nat} {start : Nat}
    (h : Counter maxAttempts windowSecs allowed entry) (hstart : entry.2 ≤ start + windowSecs * nanosPerSec) :
    (allowed.filter fun call => InInterval windowSecs start call).length ≤ maxAttempts := by
  obtain ⟨hcount, forgotten, counted, rfl, hcounted, hforgotten⟩ := h
  have hnone : forgotten.filter (fun call => InInterval windowSecs start call) = [] := by
    rw [List.filter_eq_nil_iff]
    intro call hcall hin
    have hold := hforgotten call hcall
    have hfrom := (of_decide_eq_true hin).1
    omega
  rw [List.filter_append, hnone, List.nil_append]
  exact (List.length_filter_le _ counted).trans (hcounted.trans hcount)

/-- What the counter of a key knows after the calls, at any time from the last of them on. -/
def Counting (key : String) (maxAttempts windowSecs : Nat) (calls : List CheckCall) : Prop :=
  ∀ now, (∀ call ∈ calls, call.now ≤ now) →
    ((limiterAfter calls).entry key now).2 ≤ now ∧
      Counter maxAttempts windowSecs (admitted key calls) ((limiterAfter calls).entry key now)

/-- The counter that a call leaves is the one found at any later time. -/
theorem counting_of_insert {entry : Nat × Nat} (hkey : call.key = key)
    (h : ((limiterAfter calls).check call).2 = (limiterAfter calls).insert call.key entry)
    (hstart : entry.2 ≤ call.now)
    (hcounter : Counter maxAttempts windowSecs (admitted key (calls ++ [call])) entry) :
    Counting key maxAttempts windowSecs (calls ++ [call]) := by
  intro now hnow
  have hentry : (limiterAfter (calls ++ [call])).entry key now = entry := by
    rw [limiterAfter_snoc, h, hkey, RateLimiter.entry, insert_same, Option.getD_some]
  rw [hentry]
  exact ⟨hstart.trans (hnow call (List.mem_append_right _ (List.mem_singleton_self call))), hcounter⟩

/-- The call starts the counter anew: the calls allowed before are all forgotten. -/
theorem counting_expired (hkey : call.key = key)
    (hlimits : call.maxAttempts = maxAttempts ∧ call.windowSecs = windowSecs)
    (hexpired : (limiterAfter calls).Expired call) (hearly : ¬StartsEarly calls call) :
    Counting key maxAttempts windowSecs (calls ++ [call]) := by
  obtain ⟨hmax, hwindow⟩ := hlimits
  have hcheck := check_expired hexpired
  refine counting_of_insert hkey (congrArg Prod.snd hcheck) le_rfl ⟨?_, admitted key calls, [call], ?_, le_rfl, ?_⟩
  · have hpos : call.maxAttempts ≠ 0 := fun h => hearly ⟨hexpired, Or.inl h⟩
    show 1 ≤ maxAttempts
    omega
  · exact admitted_snoc_true hkey (by rw [hcheck])
  · intro earlier hearlier
    by_contra hlate
    rw [← hwindow] at hlate
    rw [← hkey] at hearlier
    exact hearly ⟨hexpired, Or.inr ⟨earlier, hearlier, Nat.le_of_not_lt hlate⟩⟩

/-- The call finds a counter within its window. -/
theorem counting_running (hkey : call.key = key) (hmax : call.maxAttempts = maxAttempts)
    (hrun : ¬(limiterAfter calls).Expired call) (hpast : ∀ earlier ∈ calls, earlier.now ≤ call.now)
    (hcounting : Counting key maxAttempts windowSecs calls) :
    Counting key maxAttempts windowSecs (calls ++ [call]) := by
  obtain ⟨hstart, hcounter⟩ := hcounting call.now hpast
  obtain ⟨hcount, forgotten, counted, hsplit, hcounted, hforgotten⟩ := hcounter
  rw [← hkey] at hstart hcount hcounted hforgotten
  by_cases hbelow : ((limiterAfter calls).entry call.key call.now).1 < call.maxAttempts
  · have hcheck := check_below hrun hbelow
    refine counting_of_insert hkey (congrArg Prod.snd hcheck) hstart
      ⟨?_, forgotten, counted ++ [call], ?_, ?_, hforgotten⟩
    · show _ + 1 ≤ maxAttempts
      omega
    · rw [admitted_snoc_true hkey (by rw [hcheck]), hsplit, List.append_assoc]
    · rw [List.length_append, List.length_singleton]
      exact Nat.succ_le_succ hcounted
  · have hcheck := check_full hrun hbelow
    refine counting_of_insert hkey (congrArg Prod.snd hcheck) hstart
      ⟨hcount, forgotten, counted, ?_, hcounted, hforgotten⟩
    rw [admitted_snoc_false (by rw [hcheck]), hsplit]

/-- One more call for any key keeps what the counter knows. -/
theorem counting_snoc (h : Limited key maxAttempts windowSecs (calls ++ [call]))
    (hearly : call.key = key → ¬StartsEarly calls call) (hcounting : Counting key maxAttempts windowSecs calls) :
    Counting key maxAttempts windowSecs (calls ++ [call]) := by
  by_cases hkey : call.key = key
  · have hlimits := h.limits call (List.mem_append_right _ (List.mem_singleton_self call)) hkey
    by_cases hexpired : (limiterAfter calls).Expired call
    · exact counting_expired hkey hlimits hexpired (hearly hkey)
    · refine counting_running hkey hlimits.1 hexpired (fun earlier hearlier => ?_) hcounting
      exact (List.pairwise_append.mp h.ordered).2.2 earlier hearlier call (List.mem_singleton_self call)
  · intro now hnow
    rw [limiterAfter_snoc, RateLimiter.entry, check_other hkey, admitted_snoc_other hkey]
    exact hcounting now fun earlier hearlier => hnow earlier (List.mem_append_left _ hearlier)

/-- An interval that reaches the last call begins after everything its counter has forgotten. -/
theorem slidingBound_snoc (hpast : ∀ earlier ∈ calls, earlier.now ≤ call.now)
    (hcounting : Counting key maxAttempts windowSecs (calls ++ [call]))
    (hbound : SlidingBound key maxAttempts windowSecs calls) :
    SlidingBound key maxAttempts windowSecs (calls ++ [call]) := by
  intro start
  by_cases hreach : call.now ≤ start + windowSecs * nanosPerSec
  · have hnow : ∀ c ∈ calls ++ [call], c.now ≤ call.now := by
      intro c hc
      rcases List.mem_append.mp hc with hc | hc
      · exact hpast c hc
      · exact (congrArg CheckCall.now (List.mem_singleton.mp hc)).le
    obtain ⟨hstart, hcounter⟩ := hcounting call.now hnow
    exact filter_le_of_counter hcounter (hstart.trans hreach)
  · have hout : ([call].filter fun call => InInterval windowSecs start call) = [] := by
      rw [List.filter_eq_nil_iff]
      intro c hc hin
      rw [List.mem_singleton.mp hc] at hin
      exact hreach (of_decide_eq_true hin).2
    rcases admitted_snoc key calls call with hsame | hallowed
    · rw [hsame]
      exact hbound start
    · rw [hallowed, List.filter_append, hout, List.append_nil]
      exact hbound start

theorem counting_of_settled (h : Limited key maxAttempts windowSecs calls) (hsettled : Settled key calls) :
    Counting key maxAttempts windowSecs calls ∧ SlidingBound key maxAttempts windowSecs calls := by
  induction calls using List.reverseRecOn with
  | nil =>
      refine ⟨fun now _ => ⟨le_rfl, Nat.zero_le _, [], [], rfl, le_rfl, ?_⟩, fun start => Nat.zero_le _⟩
      intro call hcall
      cases hcall
  | append_singleton calls call ih =>
      obtain ⟨hordered, -, hpast⟩ := List.pairwise_append.mp h.ordered
      have hcalls : Limited key maxAttempts windowSecs calls :=
        ⟨hordered, fun c hc => h.limits c (List.mem_append_left _ hc)⟩
      have hsettled' : Settled key calls := by
        intro before c after hsplit
        exact hsettled before c (after ++ [call]) (by rw [hsplit, List.append_assoc, List.cons_append])
      obtain ⟨hcounting, hbound⟩ := ih hcalls hsettled'
      have hsnoc := counting_snoc h (fun hkey => hsettled calls call [] rfl hkey) hcounting
      exact ⟨hsnoc, slidingBound_snoc (fun c hc => hpast c hc call (List.mem_singleton_self call)) hsnoc hbound⟩

/-- At the instant the counter is started anew, as many calls are allowed as at any start. -/
theorem admitted_replicate {n : Nat} (hkey : call.key = key) (hexpired : (limiterAfter calls).Expired call)
    (hn : n = 0 ∨ n + 1 ≤ call.maxAttempts) :
    (limiterAfter (calls ++ call :: List.replicate n call)).attempts key = some (n + 1, call.now) ∧
      admitted key (calls ++ call :: List.replicate n call) =
        admitted key calls ++ call :: List.replicate n call := by
  induction n with
  | zero =>
      have hcheck := check_expired hexpired
      rw [List.replicate_zero, limiterAfter_snoc, hcheck, hkey, insert_same]
      exact ⟨rfl, admitted_snoc_true hkey (by rw [hcheck])⟩
  | succ n ih =>
      obtain ⟨hcounter, hadmitted⟩ := ih (by omega)
      have hsplit : call :: List.replicate (n + 1) call = (call :: List.replicate n call) ++ [call] := by
        rw [List.replicate_succ', List.cons_append]
      rw [hsplit, ← List.append_assoc]
      generalize calls ++ call :: List.replicate n call = earlier at hcounter hadmitted ⊢
      have hentry : (limiterAfter earlier).entry call.key call.now = (n + 1, call.now) := by
        rw [RateLimiter.entry, hkey, hcounter, Option.getD_some]
      have hrun : ¬(limiterAfter earlier).Expired call := by
        rw [Expired, hentry, Nat.sub_self, asSecs, Nat.zero_div]
        exact Nat.not_lt_zero _
      have hcheck := check_below hrun (by rw [hentry]; show n + 1 < _; omega)
      rw [limiterAfter_snoc, hcheck, hkey, insert_same, ← hkey, hentry, hkey,
        admitted_snoc_true hkey (by rw [hcheck]), hadmitted, List.append_assoc]
      exact ⟨rfl, rfl⟩

theorem exceeds_of_startsEarly (hkey : call.key = key)
    (hlimits : call.maxAttempts = maxAttempts ∧ call.windowSecs = windowSecs)
    (hpast : ∀ earlier ∈ calls, earlier.now ≤ call.now) (hearly : StartsEarly calls call) :
    ¬SlidingBound key maxAttempts windowSecs (calls ++ call :: List.replicate (maxAttempts - 1) call) := by
  obtain ⟨rfl, rfl⟩ := hlimits
  subst hkey
  intro hbound
  obtain ⟨hexpired, hreason⟩ := hearly
  have hadmitted := (admitted_replicate (n := call.maxAttempts - 1) rfl hexpired (by omega)).2
  -- The repeated calls are in every interval that has the call.
  have hall : ∀ start, InInterval call.windowSecs start call →
      ((call :: List.replicate (call.maxAttempts - 1) call).filter fun c =>
        InInterval call.windowSecs start c).length = call.maxAttempts - 1 + 1 := by
    intro start hin
    rw [List.filter_eq_self.mpr, List.length_cons, List.length_replicate]
    intro c hc
    have : c = call := (List.mem_cons.mp hc).elim id List.eq_of_mem_replicate
    rw [this]
    exact decide_eq_true hin
  rcases hreason with hzero | ⟨earlier, hearlier, hclose⟩
  · have hle := hbound call.now
    rw [hadmitted, List.filter_append, List.length_append,
      hall call.now ⟨le_rfl, Nat.le_add_right _ _⟩] at hle
    omega
  · have hle := hbound earlier.now
    have hin : earlier ∈ (admitted call.key calls).filter fun c => InInterval call.windowSecs earlier.now c :=
      List.mem_filter.mpr ⟨hearlier, decide_eq_true ⟨le_rfl, Nat.le_add_right _ _⟩⟩
    have hpos := List.length_pos_of_mem hin
    rw [hadmitted, List.filter_append, List.length_append,
      hall earlier.now ⟨hpast earlier (mem_of_admitted hearlier), hclose⟩] at hle
    omega

theorem limited_replicate {before after : List CheckCall} (n : Nat)
    (h : Limited key maxAttempts windowSecs (before ++ call :: after)) :
    Limited key maxAttempts windowSecs (before ++ call :: List.replicate n call) := by
  obtain ⟨hbefore, hafter, hpast⟩ := List.pairwise_append.mp h.ordered
  have hrepeated : ∀ c ∈ call :: List.replicate n call, c = call :=
    fun c hc => (List.mem_cons.mp hc).elim id List.eq_of_mem_replicate
  refine ⟨List.pairwise_append.mpr ⟨hbefore, ?_, fun earlier hearlier c hc => ?_⟩, fun c hc => ?_⟩
  · rw [← List.replicate_succ]
    exact List.pairwise_replicate.mpr (Or.inr le_rfl)
  · rw [hrepeated c hc]
    exact hpast earlier hearlier call (List.mem_cons_self ..)
  · refine h.limits c (List.mem_append.mpr ((List.mem_append.mp hc).imp id fun hc => ?_))
    rw [hrepeated c hc]
    exact List.mem_cons_self ..

/-- In a run in which no call starts its counter early, no interval has more attempts than allowed. In any other
run, the call that starts its counter early can be repeated at once until some interval has. -/
theorem slidingBound_of_settled (h : Limited key maxAttempts windowSecs calls) :
    (Settled key calls → SlidingBound key maxAttempts windowSecs calls) ∧
      (¬Settled key calls → ∃ before call after n, calls = before ++ call :: after ∧
        Limited key maxAttempts windowSecs (before ++ call :: List.replicate n call) ∧
        ¬SlidingBound key maxAttempts windowSecs (before ++ call :: List.replicate n call)) := by
  refine ⟨fun hsettled => (counting_of_settled h hsettled).2, fun hunsettled => ?_⟩
  simp only [Settled, not_forall, not_not] at hunsettled
  obtain ⟨before, call, after, rfl, hkey, hearly⟩ := hunsettled
  refine ⟨before, call, after, maxAttempts - 1, rfl, limited_replicate _ h, ?_⟩
  refine exceeds_of_startsEarly hkey ?_ (fun earlier hearlier => ?_) hearly
  · exact h.limits call (List.mem_append_right _ (List.mem_cons_self ..)) hkey
  · exact (List.pairwise_append.mp h.ordered).2.2 earlier hearlier call (List.mem_cons_self ..)

/-- The check of `login_submit`. -/
def loginCheck (clientIp : String) (now : Nat) : CheckCall := ⟨"login:" ++ clientIp, 10, 900, now⟩

/-- The check of `register_submit`. -/
def registerCheck (clientIp : String) (now : Nat) : CheckCall := ⟨"register:" ++ clientIp, 5, 900, now⟩

theorem registerCheck_key_ne (clientIp other : String) (now : Nat) :
    (registerCheck clientIp now).key ≠ "login:" ++ other := by
  intro h
  have := congrArg String.toList h
  simp [registerCheck] at this

/-- The calls that the routes make have the same limits for the same key. -/
theorem limited_login {clientIp : String} (hordered : calls.Pairwise fun earlier later => earlier.now ≤ later.now)
    (hroutes : ∀ call ∈ calls, ∃ ip now, call = loginCheck ip now ∨ call = registerCheck ip now) :
    Limited ("login:" ++ clientIp) 10 900 calls := by
  refine ⟨hordered, fun call hcall hkey => ?_⟩
  obtain ⟨ip, now, rfl | rfl⟩ := hroutes call hcall
  · exact ⟨rfl, rfl⟩
  · exact absurd hkey (registerCheck_key_ne ip clientIp now)

/-- Two logins from one address a day apart, and a registration in between. -/
def routeCalls : List CheckCall :=
  [loginCheck "10.0.0.1" 0, registerCheck "10.0.0.1" 1, loginCheck "10.0.0.1" 86400000000000]

theorem slidingBound_spaced : SlidingBound ("login:" ++ "10.0.0.1") 10 900 routeCalls := by
  have hroutes : ∀ call ∈ routeCalls, ∃ ip now, call = loginCheck ip now ∨ call = registerCheck ip now := by
    intro call hcall
    simp only [routeCalls, List.mem_cons, List.not_mem_nil, or_false] at hcall
    obtain rfl | rfl | rfl := hcall
    · exact ⟨_, _, Or.inl rfl⟩
    · exact ⟨_, _, Or.inr rfl⟩
    · exact ⟨_, _, Or.inl rfl⟩
  refine (slidingBound_of_settled (limited_login (by decide) hroutes)).1 fun before call after hsplit _ => ?_
  rcases before with _ | ⟨first, _ | ⟨second, _ | ⟨third, before⟩⟩⟩
  · obtain ⟨rfl, -⟩ := List.cons.inj hsplit
    decide
  · obtain ⟨rfl, hrest⟩ := List.cons.inj hsplit
    obtain ⟨rfl, -⟩ := List.cons.inj hrest
    decide
  · obtain ⟨rfl, hrest⟩ := List.cons.inj hsplit
    obtain ⟨rfl, hlast⟩ := List.cons.inj hrest
    obtain ⟨rfl, -⟩ := List.cons.inj hlast
    decide
  · have := congrArg List.length hsplit
    simp [routeCalls] at this

/-- Two attempts a second, the last three of them in a tenth of a second. -/
def burst : List CheckCall :=
  [⟨"a", 2, 1, 0⟩, ⟨"a", 2, 1, 1900000000⟩, ⟨"a", 2, 1, 2000000000⟩, ⟨"a", 2, 1, 2000000000⟩]

theorem limited_burst : Limited "a" 2 1 burst := ⟨by decide, by decide⟩

theorem not_slidingBound : ¬∀ key maxAttempts windowSecs calls, Limited key maxAttempts windowSecs calls →
    SlidingBound key maxAttempts windowSecs calls := fun h =>
  absurd (h "a" 2 1 burst limited_burst 1900000000) (by decide)

end RateLimiter

end IronDrive
