import Stemcell.Interface.Json
import Stemcell.Lib.FileLines
import Stemcell.Lib.Lists
import Mathlib.Data.List.Range

/-!
# The diagnosis trail

Every command, run, message and written file is one line in the file of its date.  The reader goes
through the files of the last dates, today's first, and cuts what it has read to a limit.

Main results:

- Definition `readRecent`: the entries that are read.
- Theorem `readDay_trailOf`: the file of a date has the entries appended on it, in order.
- Theorem `readRecent_law_iff`: exactly when the last entries are read, in the order of appending.

Current gaps:

- The fields of an entry, other than its time, are opaque.
- Appends that fail leave no entry, and files that cannot be opened are left out.
-/

namespace Stemcell
namespace Iwantto

open Interface (isSpace)
open Lib (fileLines universal)

/-! ## Entries -/

/-- An entry, with its time in seconds since the first day of the calendar. -/
structure TrailEntry (β : Type) where
  time : ℕ
  fields : β
deriving DecidableEq

/-- The ordinal of the UTC date of a time. -/
def dateOf (time : ℕ) : ℕ :=
  time / 86400 + 1

def TrailEntry.date {β : Type} (entry : TrailEntry β) : ℕ :=
  dateOf entry.time

/-- `json.dumps` and `json.loads` on entries. -/
structure TrailEnv (β : Type) where
  dumps : TrailEntry β → List Char
  loads : List Char → Option (TrailEntry β)

/-- `line.strip()`. -/
def stripLine (line : List Char) : List Char :=
  ((line.dropWhile isSpace).reverse.dropWhile isSpace).reverse

/-- An entry is one line of JSON, which begins and ends with a brace and reads back. -/
structure ReadsBack {β : Type} (env : TrailEnv β) (entry : TrailEntry β) : Prop where
  nonempty : env.dumps entry ≠ []
  one_line : '\n' ∉ env.dumps entry ∧ '\r' ∉ env.dumps entry
  strip : stripLine (env.dumps entry ++ ['\n']) = env.dumps entry
  loads : env.loads (env.dumps entry) = some entry

/-! ## The trail -/

/-- The files of the trail, by date. -/
abbrev Trail := ℕ → List Char

section Trail

variable {β : Type} (env : TrailEnv β)

/-- `_append`. -/
def appendEntry (trail : Trail) (entry : TrailEntry β) : Trail :=
  fun date =>
    if date = entry.date then trail date ++ (env.dumps entry ++ ['\n']) else trail date

/-- The trail after some appends. -/
def trailOf (appends : List (TrailEntry β)) : Trail :=
  appends.foldl (appendEntry env) fun _ => []

/-- The entries in a file; blank lines and lines that are not JSON are passed over. -/
def readDay (text : List Char) : List (TrailEntry β) :=
  (fileLines (universal text)).filterMap fun line =>
    if stripLine line = [] then none else env.loads (stripLine line)

/-- `values[-limit:] if limit else values`. -/
def lastOf {α : Type} (limit : ℕ) (values : List α) : List α :=
  if limit = 0 then values else values.drop (values.length - limit)

/-- What the loop over the dates collects. -/
def collected (trail : Trail) (today days : ℕ) : List (TrailEntry β) :=
  (List.range (max 1 days)).flatMap fun offset => readDay env (trail (today - offset))

/-- `read_recent`.  No date is before the first one. -/
def readRecent (trail : Trail) (today limit days : ℕ) : Option (List (TrailEntry β)) :=
  if today < max 1 days then none else some (lastOf limit (collected env trail today days))

/-- The date is among the last `days` ones. -/
def IsRecent (today days date : ℕ) : Prop :=
  date ≤ today ∧ today < date + days

instance (today days date : ℕ) : Decidable (IsRecent today days date) :=
  inferInstanceAs (Decidable (_ ∧ _))

/-- The entries appended on the last dates, in the order of appending. -/
def recentEntries (appends : List (TrailEntry β)) (today days : ℕ) : List (TrailEntry β) :=
  appends.filter fun entry => decide (IsRecent today days entry.date)

end Trail

/-! ## Files -/

section Files

variable {β : Type} {env : TrailEnv β}

/-- The text of the file of a date. -/
theorem trailOf_eq (appends : List (TrailEntry β)) (date : ℕ) :
    trailOf env appends date =
      (((appends.filter fun entry => decide (entry.date = date)).map env.dumps).map
        fun line => line ++ ['\n']).flatten := by
  have hfold : ∀ trail : Trail, appends.foldl (appendEntry env) trail date =
      trail date ++ (((appends.filter fun entry => decide (entry.date = date)).map env.dumps).map
        fun line => line ++ ['\n']).flatten := by
    induction appends with
    | nil => simp
    | cons entry rest ih =>
        intro trail
        rw [List.foldl_cons, ih]
        by_cases hdate : entry.date = date
        · simp [appendEntry, hdate]
        · have hother : date ≠ entry.date := Ne.symm hdate
          simp [appendEntry, hdate, hother]
  unfold trailOf
  rw [hfold, List.nil_append]

theorem filterMap_dumps {entries : List (TrailEntry β)}
    (h : ∀ entry ∈ entries, ReadsBack env entry) :
    ((entries.map env.dumps).map fun line => line ++ ['\n']).filterMap
      (fun line => if stripLine line = [] then none else env.loads (stripLine line)) = entries := by
  induction entries with
  | nil => simp
  | cons entry rest ih =>
      have hentry := h entry List.mem_cons_self
      have hrest := ih fun other hother => h other (List.mem_cons_of_mem _ hother)
      rw [List.map_cons, List.map_cons, List.filterMap_cons, hentry.strip, if_neg hentry.nonempty,
        hentry.loads]
      dsimp only
      rw [hrest]

/-- The file of a date has the entries appended on it, in order. -/
theorem readDay_trailOf {appends : List (TrailEntry β)}
    (h : ∀ entry ∈ appends, ReadsBack env entry) (date : ℕ) :
    readDay env (trailOf env appends date) =
      appends.filter fun entry => decide (entry.date = date) := by
  have hday : ∀ entry ∈ appends.filter fun entry => decide (entry.date = date),
      ReadsBack env entry :=
    fun entry hmem => h entry (List.mem_filter.mp hmem).1
  generalize hentries : (appends.filter fun entry => decide (entry.date = date)) = entries at hday
  have hlines : ∀ line ∈ entries.map env.dumps, '\n' ∉ line := by
    intro line hmem
    rcases List.mem_map.mp hmem with ⟨entry, hentry, rfl⟩
    exact (hday entry hentry).one_line.1
  have hreturn : '\r' ∉ ((entries.map env.dumps).map fun line => line ++ ['\n']).flatten := by
    simp only [List.mem_flatten, List.mem_map, not_exists, not_and]
    rintro line ⟨text, ⟨entry, hentry, rfl⟩, rfl⟩ hmem
    rcases List.mem_append.mp hmem with hmem | hmem
    · exact (hday entry hentry).one_line.2 hmem
    · simp at hmem
  have hfile := Lib.fileLines_flatten hlines []
  rw [List.append_nil] at hfile
  unfold readDay
  rw [trailOf_eq, hentries, Lib.universal_of_no_return hreturn, hfile]
  simp only [fileLines, List.append_nil]
  exact filterMap_dumps hday

end Files

/-! ## Reading -/

section Law

variable {β : Type} {env : TrailEnv β} {appends : List (TrailEntry β)} {today limit days : ℕ}

theorem collected_eq (h : ∀ entry ∈ appends, ReadsBack env entry) (today days : ℕ) :
    collected env (trailOf env appends) today days =
      (List.range (max 1 days)).flatMap fun offset =>
        appends.filter fun entry => decide (entry.date = today - offset) := by
  unfold collected
  simp only [readDay_trailOf h]

/-- What is collected are the entries of the last dates. -/
theorem mem_collected (h : ∀ entry ∈ appends, ReadsBack env entry) (hdays : 1 ≤ days)
    (htoday : days ≤ today) {entry : TrailEntry β} :
    entry ∈ collected env (trailOf env appends) today days ↔
      entry ∈ recentEntries appends today days := by
  rw [collected_eq h, List.mem_flatMap, recentEntries, List.mem_filter, decide_eq_true_iff]
  unfold IsRecent
  simp only [List.mem_range, List.mem_filter, decide_eq_true_iff]
  constructor
  · rintro ⟨offset, hoffset, hmem, hdate⟩
    refine ⟨hmem, ?_, ?_⟩ <;> omega
  · rintro ⟨hmem, hle, hlt⟩
    refine ⟨today - entry.date, ?_, hmem, ?_⟩ <;> omega

/-- The dates of what is collected go back in time. -/
theorem collected_pairwise (h : ∀ entry ∈ appends, ReadsBack env entry) (today days : ℕ) :
    (collected env (trailOf env appends) today days).Pairwise fun a b => b.date ≤ a.date := by
  rw [collected_eq h, List.pairwise_flatMap]
  constructor
  · intro offset _
    apply List.pairwise_of_forall_mem_list
    intro a ha b hb
    have hadate := of_decide_eq_true (List.mem_filter.mp ha).2
    have hbdate := of_decide_eq_true (List.mem_filter.mp hb).2
    omega
  · apply List.pairwise_lt_range.imp
    intro i j hij a ha b hb
    have hadate := of_decide_eq_true (List.mem_filter.mp ha).2
    have hbdate := of_decide_eq_true (List.mem_filter.mp hb).2
    omega

theorem date_mono {a b : TrailEntry β} (h : a.time ≤ b.time) : a.date ≤ b.date := by
  unfold TrailEntry.date dateOf
  have hday := Nat.div_le_div_right (c := 86400) h
  omega

/-- The dates of the entries go on in time. -/
theorem recentEntries_pairwise (hsorted : appends.Pairwise fun a b => a.time ≤ b.time)
    (today days : ℕ) :
    (recentEntries appends today days).Pairwise fun a b => a.date ≤ b.date :=
  (hsorted.imp date_mono).filter _

theorem getLast?_lastOf {α : Type} {values : List α} (hlimit : 1 ≤ limit) :
    (lastOf limit values).getLast? = values.getLast? := by
  have hne : limit ≠ 0 := by omega
  unfold lastOf
  rw [if_neg hne, List.getLast?_drop]
  by_cases hempty : values = []
  · simp [hempty]
  · have hlength := List.length_pos_iff.mpr hempty
    have hshort : ¬ values.length ≤ values.length - limit := by omega
    rw [if_neg hshort]

/-- The entries of the last dates were all appended on one date. -/
def OnOneDate (appends : List (TrailEntry β)) (today days : ℕ) : Prop :=
  ∀ a ∈ recentEntries appends today days, ∀ b ∈ recentEntries appends today days, a.date = b.date

/-- If all entries of the last dates are on one date, they are collected as they were appended. -/
theorem collected_of_onOneDate (h : ∀ entry ∈ appends, ReadsBack env entry) (hdays : 1 ≤ days)
    (htoday : days ≤ today) (hone : OnOneDate appends today days) :
    collected env (trailOf env appends) today days = recentEntries appends today days := by
  cases hrecent : recentEntries appends today days with
  | nil =>
      apply List.eq_nil_iff_forall_not_mem.mpr
      intro entry hmem
      rw [mem_collected h hdays htoday, hrecent] at hmem
      cases hmem
  | cons entry rest =>
      have hmem : entry ∈ recentEntries appends today days := by
        rw [hrecent]
        exact List.mem_cons_self
      have hdate := (List.mem_filter.mp hmem).2
      rw [decide_eq_true_iff] at hdate
      rcases hdate with ⟨hle, hlt⟩
      have hoffset : today - entry.date ∈ List.range (max 1 days) := by
        rw [List.mem_range]
        omega
      have hother : ∀ offset ∈ List.range (max 1 days), offset ≠ today - entry.date →
          (appends.filter fun other => decide (other.date = today - offset)) = [] := by
        intro offset hrange hne
        rw [List.mem_range] at hrange
        rw [List.filter_eq_nil_iff]
        intro other hother hd
        rw [decide_eq_true_iff] at hd
        have hrec : other ∈ recentEntries appends today days := by
          apply List.mem_filter.mpr
          refine ⟨hother, decide_eq_true ?_⟩
          unfold IsRecent
          constructor <;> omega
        have hsame := hone other hrec entry hmem
        omega
      rw [collected_eq h, Lib.flatMap_eq_of_single List.nodup_range hoffset hother, ← hrecent]
      apply List.filter_congr
      intro other hother
      apply decide_eq_decide.mpr
      constructor
      · intro hd
        unfold IsRecent
        constructor <;> omega
      · intro hrec
        have hsame := hone other (List.mem_filter.mpr ⟨hother, decide_eq_true hrec⟩) entry hmem
        omega

/-- What is read are the last entries of the last dates in the order of appending, exactly if there
are as many dates and all these entries were appended on one of them. -/
theorem readRecent_law_iff (h : ∀ entry ∈ appends, ReadsBack env entry)
    (hsorted : appends.Pairwise fun a b => a.time ≤ b.time) (hlimit : 1 ≤ limit)
    (hdays : 1 ≤ days) :
    readRecent env (trailOf env appends) today limit days =
        some (lastOf limit (recentEntries appends today days)) ↔
      days ≤ today ∧ OnOneDate appends today days := by
  have hmax : max 1 days = days := by omega
  unfold readRecent
  rw [hmax]
  by_cases htoday : days ≤ today
  · have hbefore : ¬ today < days := by omega
    rw [if_neg hbefore, Option.some.injEq]
    simp only [htoday, true_and]
    constructor
    · intro heq a ha b hb
      have hlast := congrArg List.getLast? heq
      rw [getLast?_lastOf hlimit, getLast?_lastOf hlimit] at hlast
      cases hnewest : (recentEntries appends today days).getLast? with
      | none =>
          rw [List.getLast?_eq_none_iff] at hnewest
          rw [hnewest] at ha
          cases ha
      | some last =>
          rw [hnewest] at hlast
          -- The last entry is on the first of the dates and on the last one.
          have hfirst : ∀ x ∈ recentEntries appends today days, x.date = last.date := by
            intro x hx
            have hup := Lib.eq_or_rel_of_getLast? (recentEntries_pairwise hsorted today days)
              hnewest hx
            have hdown := Lib.eq_or_rel_of_getLast? (collected_pairwise h today days) hlast
              ((mem_collected h hdays htoday).mpr hx)
            rcases hup with rfl | hup
            · rfl
            · rcases hdown with rfl | hdown
              · rfl
              · omega
          rw [hfirst a ha, hfirst b hb]
    · intro hone
      rw [collected_of_onOneDate h hdays htoday hone]
  · have hbefore : today < days := by omega
    rw [if_pos hbefore]
    simp [htoday]

/-! ### Two days -/

/-- A library that knows two entries: a run at the last midnight of 2025, and one a day later. -/
def twoDays : TrailEnv String where
  dumps entry :=
    if entry.time = 63902736000 then
      "\x7b\"at\": \"2025-12-31T00:00:00Z\", \"event\": \"run\"\x7d".toList
    else "\x7b\"at\": \"2026-01-01T00:00:00Z\", \"event\": \"run\"\x7d".toList
  loads line :=
    if line = "\x7b\"at\": \"2025-12-31T00:00:00Z\", \"event\": \"run\"\x7d".toList then
      some ⟨63902736000, "run"⟩
    else if line = "\x7b\"at\": \"2026-01-01T00:00:00Z\", \"event\": \"run\"\x7d".toList then
      some ⟨63902822400, "run"⟩
    else none

def twoRuns : List (TrailEntry String) :=
  [⟨63902736000, "run"⟩, ⟨63902822400, "run"⟩]

theorem readsBack_twoRuns : ∀ entry ∈ twoRuns, ReadsBack twoDays entry := by
  intro entry hmem
  rcases List.mem_cons.mp hmem with rfl | hmem
  · constructor <;> decide +kernel
  · rw [List.mem_singleton.mp hmem]
    constructor <;> decide +kernel

theorem readRecent_law_two_days :
    readRecent twoDays (trailOf twoDays twoRuns) 739617 5 1 =
        some (lastOf 5 (recentEntries twoRuns 739617 1)) ↔
      1 ≤ 739617 ∧ OnOneDate twoRuns 739617 1 :=
  readRecent_law_iff readsBack_twoRuns (by decide) (by decide) (by decide)

/-- With a limit of one, the older of the two entries is read. -/
theorem older_entry_read :
    readRecent twoDays (trailOf twoDays twoRuns) 739617 1 2 = some [⟨63902736000, "run"⟩] ∧
      lastOf 1 (recentEntries twoRuns 739617 2) = [⟨63902822400, "run"⟩] ∧
      readRecent twoDays (trailOf twoDays twoRuns) 739617 1 2 ≠
        some (lastOf 1 (recentEntries twoRuns 739617 2)) := by
  refine ⟨?_, ?_, ?_⟩ <;> decide +kernel

end Law

end Iwantto
end Stemcell
