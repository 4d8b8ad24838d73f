import Booley.Waves.Transitions

/-!
# Occupancy statistics

The statistics of a signal over a window of ticks: how long it holds each value, how many
stretches of each value there are, and how often the value changes. One scan of the transitions
collects them.
-/
namespace Booley.Waves

open Booley.Lib

/-! ## Counts by value -/

/-- Counts by value, in the order in which the values were first counted. -/
abbrev Counts := List (Text × Nat)

def addCount (value : Text) (amount : Nat) : Counts → Counts
  | [] => [(value, amount)]
  | (key, count) :: rest =>
    if key = value then (key, count + amount) :: rest else (key, count) :: addCount value amount rest

def countOf (counts : Counts) (value : Text) : Nat :=
  ((counts.find? fun entry => entry.1 = value).map (·.2)).getD 0

def totalCount (counts : Counts) : Nat := (counts.map (·.2)).sum

theorem countOf_nil (value : Text) : countOf [] value = 0 := rfl

theorem countOf_cons (key : Text) (count : Nat) (rest : Counts) (value : Text) :
    countOf ((key, count) :: rest) value = if key = value then count else countOf rest value := by
  by_cases hkey : key = value
  · rw [countOf, List.find?_cons_of_pos (by simpa using hkey), if_pos hkey]
    rfl
  · rw [countOf, List.find?_cons_of_neg (by simpa using hkey), if_neg hkey, countOf]

theorem countOf_addCount (value : Text) (amount : Nat) (counts : Counts) (other : Text) :
    countOf (addCount value amount counts) other =
      countOf counts other + if value = other then amount else 0 := by
  induction counts with
  | nil => rw [addCount, countOf_cons, countOf_nil, Nat.zero_add]
  | cons entry rest ih =>
    obtain ⟨key, count⟩ := entry
    by_cases hkey : key = value
    · subst hkey
      rw [addCount, if_pos rfl, countOf_cons, countOf_cons]
      by_cases hother : key = other
      · rw [if_pos hother, if_pos hother, if_pos hother]
      · rw [if_neg hother, if_neg hother, if_neg hother, Nat.add_zero]
    · rw [addCount, if_neg hkey, countOf_cons, countOf_cons, ih]
      by_cases hother : key = other
      · subst hother
        rw [if_pos rfl, if_pos rfl, if_neg fun h => hkey h.symm, Nat.add_zero]
      · rw [if_neg hother, if_neg hother]

theorem totalCount_addCount (value : Text) (amount : Nat) (counts : Counts) :
    totalCount (addCount value amount counts) = totalCount counts + amount := by
  induction counts with
  | nil => simp [addCount, totalCount]
  | cons entry rest ih =>
    obtain ⟨key, count⟩ := entry
    simp only [totalCount] at ih
    by_cases hkey : key = value
    · simp only [addCount, if_pos hkey, totalCount, List.map_cons, List.sum_cons]
      omega
    · simp only [addCount, if_neg hkey, totalCount, List.map_cons, List.sum_cons, ih]
      omega

/-! ## The scan -/

structure CacheStats where
  transitions : Nat
  valueHist : Counts
  timeInState : Counts
  deriving DecidableEq, Repr

/-- A run of a value counts when it has a duration. -/
def recordOccupiedRun (stats : CacheStats) (value : Text) (elapsed : Nat) : CacheStats :=
  if elapsed > 0 then
    { stats with
      timeInState := addCount value elapsed stats.timeInState
      valueHist := addCount value 1 stats.valueHist }
  else stats

section Scanning

variable (start last : Nat) (strictBoundary : Bool)

/-- A change that only establishes the state at the start of the window. -/
def Establishes (tick : Nat) : Bool :=
  tick < start || (tick = start && (start = 0 || strictBoundary))

def scanFrom (stats : CacheStats) (lastTick : Nat) (lastValue : Text) : Transitions → CacheStats
  | [] => recordOccupiedRun stats lastValue (last - lastTick)
  | (tick, value) :: rest =>
    if Establishes start strictBoundary tick then scanFrom stats lastTick value rest
    else if tick > last then recordOccupiedRun stats lastValue (last - lastTick)
    else if value = lastValue then scanFrom stats lastTick lastValue rest
    else
      let stats := recordOccupiedRun stats lastValue (tick - lastTick)
      scanFrom { stats with transitions := stats.transitions + 1 } tick value rest

def scanStats (transitions : Transitions) (initial : Text) : CacheStats :=
  scanFrom start last strictBoundary ⟨0, [], []⟩ start initial transitions

end Scanning

/-! ## What is occupied -/

/-- The value that a tick settles on. -/
def heldValue (initial : Text) (transitions : Transitions) (tick : Nat) : Text :=
  (settled? transitions tick).getD initial

/-- The ticks of the transitions that change the value before them. -/
def changeTicks (lastValue : Text) : Transitions → List Nat
  | [] => []
  | (tick, value) :: rest =>
    if value = lastValue then changeTicks lastValue rest else tick :: changeTicks value rest

/-- The ticks of a window, without its end. -/
def ticksBetween (first last : Nat) : List Nat := List.range' first (last - first)

/-- The statistics describe the window: every tick counts once for the value it settles on, every
maximal stretch of a value counts once, and every change within the window counts once. -/
structure Describes (start last : Nat) (strictBoundary : Bool) (initial : Text)
    (transitions : Transitions) (stats : CacheStats) : Prop where
  total : totalCount stats.timeInState = last - start
  time : ∀ value, countOf stats.timeInState value =
    (ticksBetween start last).countP fun tick => heldValue initial transitions tick = value
  stretches : ∀ value, countOf stats.valueHist value =
    (ticksBetween start last).countP fun tick => heldValue initial transitions tick = value ∧
      (tick = start ∨ heldValue initial transitions (tick - 1) ≠ value)
  changes : stats.transitions = (changeTicks initial transitions).countP fun tick =>
    (start < tick ∧ tick ≤ last) ∨ (tick = start ∧ 0 < start ∧ strictBoundary = false)

theorem heldValue_cons (initial : Text) (tick : Nat) (value : Text) (rest : Transitions)
    (now : Nat) : heldValue initial ((tick, value) :: rest) now =
      heldValue (if tick ≤ now then value else initial) rest now := by
  rw [heldValue, settled?_cons, heldValue]
  cases settled? rest now with
  | none =>
    by_cases hle : tick ≤ now
    · rw [if_pos hle, if_pos hle]
      rfl
    · rw [if_neg hle, if_neg hle]
      rfl
  | some held => rfl

theorem heldValue_before {transitions : Transitions} {now : Nat} (initial : Text)
    (h : ∀ entry ∈ transitions, now < entry.1) : heldValue initial transitions now = initial := by
  rw [heldValue, settled?_eq_none h]
  rfl

/-- Where nothing changes, the value of the tick before is held. -/
theorem heldValue_unchanged {initial : Text} {transitions : Transitions}
    (hsorted : transitions.Sorted) {now : Nat} (hpos : 0 < now)
    (hquiet : now ∉ changeTicks initial transitions) :
    heldValue initial transitions now = heldValue initial transitions (now - 1) := by
  induction transitions generalizing initial with
  | nil => rfl
  | cons entry rest ih =>
    obtain ⟨tick, value⟩ := entry
    obtain ⟨hfirst, hrest⟩ := List.pairwise_cons.mp hsorted
    have hlater : ∀ other ∈ rest, tick ≤ other.1 := hfirst
    rw [heldValue_cons, heldValue_cons]
    have hquietRest : now ∉ changeTicks value rest := by
      by_cases hsame : value = initial
      · rw [changeTicks, if_pos hsame, ← hsame] at hquiet
        exact hquiet
      · rw [changeTicks, if_neg hsame] at hquiet
        exact fun hmem => hquiet (List.mem_cons_of_mem tick hmem)
    by_cases hbefore : tick < now
    · rw [if_pos (by omega), if_pos (by omega)]
      exact ih hrest hquietRest
    · by_cases hat : tick = now
      · have hsame : value = initial := by
          by_contra hdiffers
          rw [changeTicks, if_neg hdiffers, hat] at hquiet
          exact hquiet List.mem_cons_self
        rw [if_pos (by omega), if_neg (by omega), ← hsame]
        exact ih hrest hquietRest
      · rw [if_neg (by omega), if_neg (by omega),
          heldValue_before initial fun other hother => by have := hlater other hother; omega,
          heldValue_before initial fun other hother => by have := hlater other hother; omega]

theorem le_of_mem_changeTicks {lastValue : Text} {transitions : Transitions} {first : Nat}
    (h : ∀ entry ∈ transitions, first ≤ entry.1) :
    ∀ tick ∈ changeTicks lastValue transitions, first ≤ tick := by
  induction transitions generalizing lastValue with
  | nil => exact fun tick htick => absurd htick List.not_mem_nil
  | cons entry rest ih =>
    obtain ⟨tick, value⟩ := entry
    have hrest : ∀ other ∈ rest, first ≤ other.1 :=
      fun other hother => h other (List.mem_cons_of_mem _ hother)
    intro change hchange
    by_cases hsame : value = lastValue
    · rw [changeTicks, if_pos hsame] at hchange
      exact ih hrest change hchange
    · rw [changeTicks, if_neg hsame] at hchange
      rcases List.mem_cons.mp hchange with rfl | hmem
      · exact h _ List.mem_cons_self
      · exact ih hrest change hmem

/-! ## Ticks of a window -/

theorem mem_ticksBetween {first last tick : Nat} :
    tick ∈ ticksBetween first last ↔ first ≤ tick ∧ tick < last := by
  rw [ticksBetween, List.mem_range'_1]
  omega

theorem ticksBetween_split {first middle last : Nat} (hle : first ≤ middle) (hge : middle ≤ last) :
    ticksBetween first last = ticksBetween first middle ++ ticksBetween middle last := by
  have happend := @List.range'_append first (middle - first) (last - middle) 1
  rw [Nat.one_mul, show first + (middle - first) = middle by omega,
    show middle - first + (last - middle) = last - first by omega] at happend
  exact happend.symm

theorem length_ticksBetween (first last : Nat) : (ticksBetween first last).length = last - first :=
  List.length_range'

theorem countP_ticks_true {first last : Nat} {p : Nat → Bool}
    (h : ∀ tick, first ≤ tick → tick < last → p tick = true) :
    (ticksBetween first last).countP p = last - first := by
  rw [List.countP_eq_length.mpr, length_ticksBetween]
  intro tick htick
  obtain ⟨hle, hlt⟩ := mem_ticksBetween.mp htick
  exact h tick hle hlt

theorem countP_ticks_false {first last : Nat} {p : Nat → Bool}
    (h : ∀ tick, first ≤ tick → tick < last → p tick = false) :
    (ticksBetween first last).countP p = 0 := by
  refine List.countP_eq_zero.mpr fun tick htick => ?_
  obtain ⟨hle, hlt⟩ := mem_ticksBetween.mp htick
  rw [h tick hle hlt]
  decide

/-- Only the first tick of a window can be its first. -/
theorem countP_ticks_first {first last : Nat} (hlt : first < last) :
    (ticksBetween first last).countP (fun tick => tick = first) = 1 := by
  have hsplit := ticksBetween_split (Nat.le_succ first) hlt
  rw [hsplit, List.countP_append, countP_ticks_true fun tick hle hless => decide_eq_true (by omega),
    countP_ticks_false fun tick hle hless => decide_eq_false (by omega)]
  omega

theorem countP_ticks_congr {first last : Nat} {p q : Nat → Bool}
    (h : ∀ tick, first ≤ tick → tick < last → (p tick = true ↔ q tick = true)) :
    (ticksBetween first last).countP p = (ticksBetween first last).countP q := by
  refine List.countP_congr fun tick htick => ?_
  obtain ⟨hle, hlt⟩ := mem_ticksBetween.mp htick
  exact h tick hle hlt

/-- What a window counts more than another condition, it counts by a tick of its own. -/
theorem countP_lt_of_mem {members : List Nat} {p q : Nat → Bool}
    (hle : ∀ member ∈ members, p member = true → q member = true) {extra : Nat}
    (hmem : extra ∈ members) (hq : q extra = true) (hp : p extra = false) :
    members.countP p < members.countP q := by
  induction members with
  | nil => cases hmem
  | cons member rest ih =>
    have hrest : ∀ other ∈ rest, p other = true → q other = true :=
      fun other hother => hle other (List.mem_cons_of_mem member hother)
    have hmono := List.countP_mono_left hrest
    rw [List.countP_cons, List.countP_cons]
    rcases List.mem_cons.mp hmem with rfl | hlater
    · rw [hp, hq]
      simp only [Bool.false_eq_true, if_false, if_true]
      omega
    · have hless := ih hrest hlater
      by_cases hcounted : p member = true
      · rw [if_pos hcounted, if_pos (hle member List.mem_cons_self hcounted)]
        omega
      · rw [if_neg hcounted]
        omega

/-! ## What a part of the scan collects -/

/-- Between two states of the scan a window was counted: its ticks by the value held, and its
stretches by their first ticks. -/
structure Collects (stats result : CacheStats) (first last : Nat) (held : Nat → Text)
    (begins : Nat → Bool) : Prop where
  total : totalCount result.timeInState = totalCount stats.timeInState + (last - first)
  time : ∀ value, countOf result.timeInState value =
    countOf stats.timeInState value + (ticksBetween first last).countP fun tick => held tick = value
  stretches : ∀ value, countOf result.valueHist value = countOf stats.valueHist value +
    (ticksBetween first last).countP fun tick => held tick = value ∧ begins tick = true

theorem Collects.congr {stats result : CacheStats} {first last : Nat} {held held' : Nat → Text}
    {begins begins' : Nat → Bool} (h : Collects stats result first last held begins)
    (hheld : ∀ tick, first ≤ tick → tick < last → held' tick = held tick)
    (hbegins : ∀ tick, first ≤ tick → tick < last → begins' tick = begins tick) :
    Collects stats result first last held' begins' where
  total := h.total
  time := by
    intro value
    rw [h.time]
    congr 1
    exact countP_ticks_congr fun tick hle hlt => by rw [hheld tick hle hlt]
  stretches := by
    intro value
    rw [h.stretches]
    congr 1
    exact countP_ticks_congr fun tick hle hlt => by rw [hheld tick hle hlt, hbegins tick hle hlt]

theorem Collects.append {stats between result : CacheStats} {first middle last : Nat}
    {held : Nat → Text} {begins : Nat → Bool} (hfront : Collects stats between first middle held begins)
    (hback : Collects between result middle last held begins) (hle : first ≤ middle)
    (hge : middle ≤ last) : Collects stats result first last held begins where
  total := by
    rw [hback.total, hfront.total]
    omega
  time := by
    intro value
    rw [hback.time, hfront.time, ticksBetween_split hle hge, List.countP_append, Nat.add_assoc]
  stretches := by
    intro value
    rw [hback.stretches, hfront.stretches, ticksBetween_split hle hge, List.countP_append,
      Nat.add_assoc]

/-- A run collects a window with one value and one beginning. -/
theorem Collects.run (stats : CacheStats) {first last : Nat} {value : Text} {held : Nat → Text}
    {begins : Nat → Bool} (hheld : ∀ tick, first ≤ tick → tick < last → held tick = value)
    (hbegins : ∀ tick, first ≤ tick → tick < last → (begins tick = true ↔ tick = first)) :
    Collects stats (recordOccupiedRun stats value (last - first)) first last held begins := by
  by_cases helapsed : last - first > 0
  · rw [recordOccupiedRun, if_pos helapsed]
    refine ⟨totalCount_addCount _ _ _, fun other => ?_, fun other => ?_⟩
    · rw [countOf_addCount]
      by_cases hother : value = other
      · rw [if_pos hother, countP_ticks_true fun tick hle hlt =>
          decide_eq_true ((hheld tick hle hlt).trans hother)]
      · rw [if_neg hother, countP_ticks_false fun tick hle hlt =>
          decide_eq_false fun hsame => hother ((hheld tick hle hlt).symm.trans hsame)]
    · rw [countOf_addCount]
      by_cases hother : value = other
      · rw [if_pos hother, ← countP_ticks_first (show first < last by omega)]
        congr 1
        refine countP_ticks_congr fun tick hle hlt => ?_
        rw [decide_eq_true_iff, decide_eq_true_iff]
        constructor
        · exact fun hfirst => ⟨(hheld tick hle hlt).trans hother, (hbegins tick hle hlt).mpr hfirst⟩
        · exact fun hboth => (hbegins tick hle hlt).mp hboth.2
      · rw [if_neg hother, countP_ticks_false fun tick hle hlt =>
          decide_eq_false fun hboth => hother ((hheld tick hle hlt).symm.trans hboth.1)]
  · have hempty : ticksBetween first last = [] := by
      rw [ticksBetween, show last - first = 0 by omega]
      rfl
    rw [recordOccupiedRun, if_neg helapsed]
    refine ⟨by omega, fun other => ?_, fun other => ?_⟩
    · rw [hempty]
      rfl
    · rw [hempty]
      rfl

theorem transitions_recordOccupiedRun (stats : CacheStats) (value : Text) (elapsed : Nat) :
    (recordOccupiedRun stats value elapsed).transitions = stats.transitions := by
  rw [recordOccupiedRun]
  split
  · rfl
  · rfl

/-- A tick at which a stretch is recorded to begin. -/
def beginsAt (first : Nat) (lastValue : Text) (transitions : Transitions) (tick : Nat) : Bool :=
  tick = first || (changeTicks lastValue transitions).contains tick

theorem beginsAt_iff {first tick : Nat} {lastValue : Text} {transitions : Transitions} :
    beginsAt first lastValue transitions tick = true ↔
      tick = first ∨ tick ∈ changeTicks lastValue transitions := by
  rw [beginsAt, Bool.or_eq_true, decide_eq_true_iff, List.contains_iff_mem]

section Scanning

variable {start last : Nat} {strictBoundary : Bool}

/-- From the first counted transition on, the scan collects what is held up to the end, and
counts the changes up to it. -/
theorem scanFrom_counted {transitions : Transitions} (hsorted : transitions.Sorted)
    {lastTick : Nat} (hle : lastTick ≤ last) (lastValue : Text)
    (hcounted : ∀ entry ∈ transitions, lastTick ≤ entry.1 ∧
      Establishes start strictBoundary entry.1 = false) (stats : CacheStats) :
    Collects stats (scanFrom start last strictBoundary stats lastTick lastValue transitions)
        lastTick last (heldValue lastValue transitions)
        (beginsAt lastTick lastValue transitions) ∧
      (scanFrom start last strictBoundary stats lastTick lastValue transitions).transitions =
        stats.transitions + (changeTicks lastValue transitions).countP (· ≤ last) := by
  induction transitions generalizing lastTick lastValue stats with
  | nil =>
    refine ⟨Collects.run stats (fun _ _ _ => rfl) fun tick _ _ => ?_,
      transitions_recordOccupiedRun _ _ _⟩
    rw [beginsAt_iff]
    exact ⟨fun h => h.elim id fun hmem => absurd hmem List.not_mem_nil, Or.inl⟩
  | cons entry rest ih =>
    obtain ⟨tick, value⟩ := entry
    obtain ⟨hfirst, hrest⟩ := List.pairwise_cons.mp hsorted
    have hlater : ∀ other ∈ rest, tick ≤ other.1 := hfirst
    obtain ⟨hafter, hkept⟩ := hcounted _ List.mem_cons_self
    have hafterTick : lastTick ≤ tick := hafter
    have hkeptTick : ¬ Establishes start strictBoundary tick = true := Bool.eq_false_iff.mp hkept
    have hcountedRest : ∀ other ∈ rest, Establishes start strictBoundary other.1 = false :=
      fun other hother => (hcounted other (List.mem_cons_of_mem _ hother)).2
    -- before the transition the value is still the old one
    have hold : ∀ now, now < tick → heldValue lastValue ((tick, value) :: rest) now = lastValue :=
      fun now hnow => heldValue_before lastValue fun other hother => by
        rcases List.mem_cons.mp hother with rfl | hmem
        · exact hnow
        · have hge := hlater other hmem
          omega
    have hnone : ∀ now, now < tick → now ∉ changeTicks lastValue ((tick, value) :: rest) :=
      fun now hnow hmem => by
        have hge := @le_of_mem_changeTicks lastValue ((tick, value) :: rest) tick
          (fun other hother => by
            rcases List.mem_cons.mp hother with rfl | hmem
            · exact Nat.le_refl _
            · exact hlater other hmem) now hmem
        omega
    by_cases hend : tick > last
    · -- the window ends first
      have hscan : scanFrom start last strictBoundary stats lastTick lastValue
          ((tick, value) :: rest) = recordOccupiedRun stats lastValue (last - lastTick) := by
        rw [scanFrom, if_neg hkeptTick, if_pos hend]
      rw [hscan]
      refine ⟨Collects.run stats (fun now _ hlt => hold now (by omega)) fun now _ hlt => ?_, ?_⟩
      · rw [beginsAt_iff]
        exact ⟨fun h => h.elim id fun hmem => absurd hmem (hnone now (by omega)), Or.inl⟩
      · rw [transitions_recordOccupiedRun, List.countP_eq_zero.mpr, Nat.add_zero]
        intro now hnow hin
        have hless := of_decide_eq_true hin
        exact hnone now (by omega) hnow
    by_cases hsame : value = lastValue
    · -- a repeated value changes nothing
      have hscan : scanFrom start last strictBoundary stats lastTick lastValue
          ((tick, value) :: rest) =
            scanFrom start last strictBoundary stats lastTick lastValue rest := by
        rw [scanFrom, if_neg hkeptTick, if_neg hend, if_pos hsame]
      have hchanges : changeTicks lastValue ((tick, value) :: rest) = changeTicks lastValue rest := by
        rw [changeTicks, if_pos hsame]
      have hheld : ∀ now, heldValue lastValue ((tick, value) :: rest) now =
          heldValue lastValue rest now := by
        intro now
        rw [heldValue_cons, hsame, ite_self]
      obtain ⟨hcollects, hcount⟩ := ih hrest hle lastValue (fun other hother =>
        ⟨Nat.le_trans hafterTick (hlater other hother), hcountedRest other hother⟩) stats
      rw [hscan, hchanges]
      refine ⟨hcollects.congr (fun now _ _ => hheld now) fun now _ _ => ?_, hcount⟩
      rw [beginsAt, beginsAt, hchanges]
    · -- the old run ends here and a new one begins
      have hscan : scanFrom start last strictBoundary stats lastTick lastValue
          ((tick, value) :: rest) = scanFrom start last strictBoundary
            { recordOccupiedRun stats lastValue (tick - lastTick) with
              transitions := (recordOccupiedRun stats lastValue (tick - lastTick)).transitions + 1 }
            tick value rest := by
        rw [scanFrom, if_neg hkeptTick, if_neg hend, if_neg hsame]
      have hchanges : changeTicks lastValue ((tick, value) :: rest) =
          tick :: changeTicks value rest := by
        rw [changeTicks, if_neg hsame]
      obtain ⟨hcollects, hcount⟩ := ih hrest (show tick ≤ last by omega) value
        (fun other hother => ⟨hlater other hother, hcountedRest other hother⟩)
        { recordOccupiedRun stats lastValue (tick - lastTick) with
          transitions := (recordOccupiedRun stats lastValue (tick - lastTick)).transitions + 1 }
      have hfront : Collects stats (recordOccupiedRun stats lastValue (tick - lastTick)) lastTick tick
          (heldValue lastValue ((tick, value) :: rest))
          (beginsAt lastTick lastValue ((tick, value) :: rest)) :=
        Collects.run stats (fun now _ hlt => hold now hlt) fun now _ hlt => by
          rw [beginsAt_iff]
          exact ⟨fun h => h.elim id fun hmem => absurd hmem (hnone now hlt), Or.inl⟩
      have hheld : ∀ now, tick ≤ now → now < last →
          heldValue lastValue ((tick, value) :: rest) now = heldValue value rest now :=
        fun now hge _ => by rw [heldValue_cons, if_pos hge]
      have hbegins : ∀ now, tick ≤ now → now < last →
          beginsAt lastTick lastValue ((tick, value) :: rest) now =
            beginsAt tick value rest now := by
        intro now hge _
        rw [Bool.eq_iff_iff, beginsAt_iff, beginsAt_iff, hchanges, List.mem_cons]
        constructor
        · rintro (hat | hat | hmem)
          · exact Or.inl (by omega)
          · exact Or.inl hat
          · exact Or.inr hmem
        · rintro (hat | hmem)
          · exact Or.inr (Or.inl hat)
          · exact Or.inr (Or.inr hmem)
      have hback := hcollects.congr hheld hbegins
      rw [hscan]
      refine ⟨hfront.append ⟨hback.total, hback.time, hback.stretches⟩ hafterTick (by omega), ?_⟩
      rw [hcount, hchanges, List.countP_cons_of_pos (by simpa using hend)]
      simp only [transitions_recordOccupiedRun]
      omega

/-- The scan collects what is held in the window, and counts the changes within it. -/
theorem scanFrom_start {transitions : Transitions} (hsorted : transitions.Sorted)
    (hwindow : start ≤ last) (lastValue : Text) (stats : CacheStats) :
    Collects stats (scanFrom start last strictBoundary stats start lastValue transitions)
        start last (heldValue lastValue transitions) (beginsAt start lastValue transitions) ∧
      (scanFrom start last strictBoundary stats start lastValue transitions).transitions =
        stats.transitions + (changeTicks lastValue transitions).countP fun tick =>
          (start < tick ∧ tick ≤ last) ∨ (tick = start ∧ 0 < start ∧ strictBoundary = false) := by
  have hestablishes : ∀ tick, Establishes start strictBoundary tick = true ↔
      tick < start ∨ (tick = start ∧ (start = 0 ∨ strictBoundary = true)) := by
    intro tick
    simp only [Establishes, Bool.or_eq_true, Bool.and_eq_true, decide_eq_true_iff]
  induction transitions generalizing lastValue with
  | nil =>
    obtain ⟨hcollects, hcount⟩ := @scanFrom_counted start last strictBoundary [] hsorted start
      hwindow lastValue (fun _ h => absurd h List.not_mem_nil) stats
    exact ⟨hcollects, hcount⟩
  | cons entry rest ih =>
    obtain ⟨tick, value⟩ := entry
    obtain ⟨hfirst, hrest⟩ := List.pairwise_cons.mp hsorted
    have hlater : ∀ other ∈ rest, tick ≤ other.1 := hfirst
    by_cases hskip : Establishes start strictBoundary tick = true
    · -- a transition that establishes the state at the start
      have hscan : scanFrom start last strictBoundary stats start lastValue ((tick, value) :: rest) =
          scanFrom start last strictBoundary stats start value rest := by
        rw [scanFrom, if_pos hskip]
      obtain ⟨hcollects, hcount⟩ := ih hrest value
      have hbefore : tick ≤ start := by
        rcases (hestablishes tick).mp hskip with h | h
        · omega
        · omega
      rw [hscan]
      refine ⟨hcollects.congr (fun now hge _ => ?_) fun now hge _ => ?_, ?_⟩
      · rw [heldValue_cons, if_pos (by omega)]
      · rw [Bool.eq_iff_iff, beginsAt_iff, beginsAt_iff]
        by_cases hsame : value = lastValue
        · rw [changeTicks, if_pos hsame, hsame]
        · rw [changeTicks, if_neg hsame, List.mem_cons]
          constructor
          · rintro (hat | hat | hmem)
            · exact Or.inl hat
            · exact Or.inl (by omega)
            · exact Or.inr hmem
          · rintro (hat | hmem)
            · exact Or.inl hat
            · exact Or.inr (Or.inr hmem)
      · rw [hcount]
        by_cases hsame : value = lastValue
        · rw [changeTicks, if_pos hsame, hsame]
        · rw [changeTicks, if_neg hsame, List.countP_cons_of_neg]
          rw [decide_eq_true_iff]
          rintro (hin | ⟨hat, hpos, hloose⟩)
          · omega
          · rcases (hestablishes tick).mp hskip with h | ⟨-, hzero | hstrict⟩
            · omega
            · omega
            · rw [hloose] at hstrict
              cases hstrict
    · -- from here on every transition is counted
      have hstay : start ≤ tick ∧ (tick = start → 0 < start ∧ strictBoundary = false) := by
        rw [hestablishes, not_or, not_and_or, not_or, Bool.not_eq_true] at hskip
        refine ⟨by omega, fun hat => ?_⟩
        rcases hskip.2 with hother | ⟨hpos, hloose⟩
        · exact absurd hat hother
        · exact ⟨by omega, hloose⟩
      have hcounted : ∀ other ∈ (tick, value) :: rest, start ≤ other.1 ∧
          Establishes start strictBoundary other.1 = false := by
        intro other hother
        have hge : tick ≤ other.1 := by
          rcases List.mem_cons.mp hother with rfl | hmem
          · exact Nat.le_refl _
          · exact hlater other hmem
        refine ⟨by omega, Bool.eq_false_iff.mpr fun hest => ?_⟩
        rcases (hestablishes other.1).mp hest with h | ⟨hat, hzero⟩
        · omega
        · obtain ⟨hpos, hloose⟩ := hstay.2 (by omega)
          rcases hzero with hzero | hstrict
          · omega
          · rw [hloose] at hstrict
            cases hstrict
      obtain ⟨hcollects, hcount⟩ := scanFrom_counted hsorted hwindow lastValue hcounted stats
      refine ⟨hcollects, hcount.trans ?_⟩
      congr 1
      refine List.countP_congr fun now hnow => ?_
      have hge := @le_of_mem_changeTicks lastValue ((tick, value) :: rest) tick (fun other hother => by
        rcases List.mem_cons.mp hother with rfl | hmem
        · exact Nat.le_refl _
        · exact hlater other hmem) now hnow
      rw [decide_eq_true_iff, decide_eq_true_iff]
      constructor
      · intro hle
        by_cases hat : now = start
        · exact Or.inr ⟨hat, hstay.2 (by omega)⟩
        · exact Or.inl ⟨by omega, hle⟩
      · rintro (⟨-, hle⟩ | ⟨hat, -⟩)
        · exact hle
        · omega

end Scanning

/-! ## When the stretches are maximal -/

/-- No tick within the window changes the value and settles on the value it had before. -/
def NoGlitch (start last : Nat) (initial : Text) (transitions : Transitions) : Prop :=
  ∀ tick ∈ changeTicks initial transitions, start < tick → tick < last →
    heldValue initial transitions tick ≠ heldValue initial transitions (tick - 1)

/-- The statistics describe the window exactly when no tick within it glitches. -/
theorem scanStats_describes_iff {start last : Nat} {strictBoundary : Bool} {initial : Text}
    {transitions : Transitions} (hsorted : transitions.Sorted) (hwindow : start ≤ last) :
    Describes start last strictBoundary initial transitions
        (scanStats start last strictBoundary transitions initial) ↔
      NoGlitch start last initial transitions := by
  obtain ⟨hcollects, hcount⟩ := @scanFrom_start start last strictBoundary transitions hsorted hwindow
    initial ⟨0, [], []⟩
  have htime : ∀ value, countOf (scanStats start last strictBoundary transitions initial).timeInState
      value = (ticksBetween start last).countP
        fun tick => heldValue initial transitions tick = value := by
    intro value
    rw [scanStats, hcollects.time value, countOf_nil, Nat.zero_add]
  have hstretches : ∀ value,
      countOf (scanStats start last strictBoundary transitions initial).valueHist value =
        (ticksBetween start last).countP fun tick => heldValue initial transitions tick = value ∧
          beginsAt start initial transitions tick = true := by
    intro value
    rw [scanStats, hcollects.stretches value, countOf_nil, Nat.zero_add]
  -- a stretch that begins is recorded to begin
  have hbegins : ∀ tick, start ≤ tick →
      (tick = start ∨ heldValue initial transitions (tick - 1) ≠ heldValue initial transitions tick) →
        beginsAt start initial transitions tick = true := by
    intro tick hge hbegin
    rw [beginsAt_iff]
    rcases hbegin with hat | hdiffers
    · exact Or.inl hat
    · by_cases hat : tick = start
      · exact Or.inl hat
      · refine Or.inr (by_contra fun hquiet => hdiffers ?_)
        exact (heldValue_unchanged hsorted (by omega) hquiet).symm
  constructor
  · intro hdescribes tick hmem hafter hbefore hglitch
    have hless := @countP_lt_of_mem (ticksBetween start last)
      (fun now => heldValue initial transitions now = heldValue initial transitions tick ∧
        (now = start ∨ heldValue initial transitions (now - 1) ≠ heldValue initial transitions tick))
      (fun now => heldValue initial transitions now = heldValue initial transitions tick ∧
        beginsAt start initial transitions now = true)
      (fun now hnow hstretch => by
        obtain ⟨hheld, hbegin⟩ := of_decide_eq_true hstretch
        refine decide_eq_true ⟨hheld, hbegins now (mem_ticksBetween.mp hnow).1 ?_⟩
        rwa [← hheld] at hbegin)
      tick (mem_ticksBetween.mpr ⟨by omega, hbefore⟩)
      (decide_eq_true ⟨rfl, beginsAt_iff.mpr (Or.inr hmem)⟩)
      (decide_eq_false (by
        rintro ⟨-, hat | hdiffers⟩
        · omega
        · exact hdiffers hglitch.symm))
    have hsame := hdescribes.stretches (heldValue initial transitions tick)
    rw [hstretches] at hsame
    omega
  · intro hquiet
    refine ⟨?_, htime, fun value => ?_, ?_⟩
    · rw [scanStats, hcollects.total]
      exact Nat.zero_add _
    · rw [hstretches]
      refine countP_ticks_congr fun tick hge hlt => ?_
      rw [decide_eq_true_iff, decide_eq_true_iff]
      constructor
      · rintro ⟨hheld, hbegin⟩
        refine ⟨hheld, ?_⟩
        rcases beginsAt_iff.mp hbegin with hat | hmem
        · exact Or.inl hat
        · by_cases hat : tick = start
          · exact Or.inl hat
          · refine Or.inr fun hsame => hquiet tick hmem (by omega) hlt ?_
            rw [hheld, hsame]
      · rintro ⟨hheld, hbegin⟩
        refine ⟨hheld, hbegins tick hge ?_⟩
        rwa [hheld]
    · rw [scanStats, hcount]
      exact Nat.zero_add _

/-- Two changes at one tick, to a new value and from there to another. -/
theorem scanStats_describes_two_changes :
    Describes 0 10 true ['0'] [(0, ['0']), (4, ['x']), (4, ['1'])]
      (scanStats 0 10 true [(0, ['0']), (4, ['x']), (4, ['1'])] ['0']) :=
  (scanStats_describes_iff (by unfold Timeline.Sorted; decide) (by decide)).mpr (by
    intro tick hmem _ _
    have hticks : changeTicks ['0'] [(0, ['0']), (4, ['x']), (4, ['1'])] = [4, 4] := by decide
    have hat : tick = 4 := by simpa [hticks] using hmem
    subst hat
    decide)

/-- A glitch within one tick splits a stretch in two. -/
theorem scanStats_glitch :
    countOf (scanStats 0 10 true [(0, ['0']), (4, ['1']), (4, ['0'])] ['0']).valueHist ['0'] = 2 ∧
      ∀ tick < 10, heldValue ['0'] [(0, ['0']), (4, ['1']), (4, ['0'])] tick = ['0'] := by
  decide

end Booley.Waves
