import TraceViews.Proofs.View.Notices

/-!
# What a participant hears

A participant that asks its hub is told of one selection: of those that are new to it, and still
kept, the last one that somebody else made (`Hub.latest_eq`).
-/

namespace TraceViews

/-- The last elements of a list, at most `n`. -/
def newest {α : Type} (n : Nat) (l : List α) : List α := l.drop (l.length - n)

theorem newest_of_length_le {α : Type} {n : Nat} {l : List α} (h : l.length ≤ n) :
    newest n l = l := by
  rw [newest, Nat.sub_eq_zero_of_le h, List.drop_zero]

theorem newest_append {α : Type} {n : Nat} {l more : List α} (h : n ≤ more.length) :
    newest n (l ++ more) = newest n more := by
  have hstart : (l ++ more).length - n = l.length + (more.length - n) := by
    rw [List.length_append, Nat.add_sub_assoc h]
  rw [newest, hstart, List.drop_length_add_append, newest]

/-- The point in time of the last of some selections that somebody else made. -/
def lastOfOthers (id : Nat) (news : List Selection) : Option Timestamp :=
  (news.filter fun x => x.source != id).getLast?.map Selection.timestamp

section LastOfOthers

variable {id : Nat} {news : List Selection}

theorem lastOfOthers_eq_find? (id : Nat) (news : List Selection) :
    lastOfOthers id news
      = (news.reverse.find? fun x => x.source != id).map Selection.timestamp := by
  rw [lastOfOthers, List.getLast?_eq_head?_reverse, ← List.filter_reverse, List.head?_filter]

theorem lastOfOthers_eq_none_iff : lastOfOthers id news = none ↔ ∀ x ∈ news, x.source = id := by
  simp [lastOfOthers_eq_find?]

/-- What comes behind the last selection of somebody else is one's own. -/
theorem lastOfOthers_eq_some_iff {timestamp : Timestamp} :
    lastOfOthers id news = some timestamp ↔
      ∃ earlier source later, news = earlier ++ ⟨source, timestamp⟩ :: later ∧ source ≠ id ∧
        ∀ x ∈ later, x.source = id := by
  rw [lastOfOthers_eq_find?, Option.map_eq_some_iff]
  constructor
  · rintro ⟨x, hx, rfl⟩
    obtain ⟨hother, later, earlier, hnews, hlater⟩ := List.find?_eq_some_iff_append.1 hx
    refine ⟨earlier.reverse, x.source, later.reverse, ?_, by simpa using hother, ?_⟩
    · rw [← List.reverse_inj, hnews]
      simp
    · intro y hy
      simpa using hlater y (List.mem_reverse.1 hy)
  · rintro ⟨earlier, source, later, rfl, hother, hlater⟩
    refine ⟨⟨source, timestamp⟩, List.find?_eq_some_iff_append.2 ⟨by simpa using hother,
      later.reverse, earlier.reverse, by simp, ?_⟩, rfl⟩
    intro y hy
    simpa using hlater y (List.mem_reverse.1 hy)

/-- What a participant has to be told of the selections that are new to it. -/
structure Tells (id : Nat) (news : List Selection) (answer : Option Timestamp) : Prop where
  /-- Of the newest selections it is told the last one of somebody else. -/
  newest : answer = lastOfOthers id (newest selectionCapacity news)
  /-- What is told is new, somebody else made it, and what came later is little, and one's own. -/
  others : ∀ timestamp, answer = some timestamp → ∃ earlier source later,
    news = earlier ++ ⟨source, timestamp⟩ :: later ∧ source ≠ id ∧ (∀ x ∈ later, x.source = id) ∧
      later.length < selectionCapacity
  /-- If nothing is told, the newest selections are one's own. -/
  nothing : answer = none → ∀ x ∈ TraceViews.newest selectionCapacity news, x.source = id
  /-- Few selections are all heard of. -/
  complete : news.length ≤ selectionCapacity → answer = lastOfOthers id news

theorem length_newest_le {α : Type} (n : Nat) (l : List α) : (newest n l).length ≤ n := by
  rw [newest, List.length_drop]
  omega

theorem tells_lastOfOthers (id : Nat) (news : List Selection) :
    Tells id news (lastOfOthers id (newest selectionCapacity news)) where
  newest := rfl
  others := by
    intro timestamp hanswer
    obtain ⟨earlier, source, later, hnewest, hother, hlater⟩ := lastOfOthers_eq_some_iff.1 hanswer
    refine ⟨news.take (news.length - selectionCapacity) ++ earlier, source, later, ?_, hother,
      hlater, ?_⟩
    · rw [List.append_assoc, ← hnewest, newest, List.take_append_drop]
    · have hlength := length_newest_le selectionCapacity news
      rw [hnewest, List.length_append, List.length_cons] at hlength
      omega
  nothing := lastOfOthers_eq_none_iff.1
  complete := fun hfew => by rw [newest_of_length_le hfew]

end LastOfOthers

/-- **What a participant hears** that is behind by some selections; from then on it has heard of all
of them. -/
theorem Hub.latest_eq {hub : Hub} {p : Participant} {earlier news : List Selection}
    (hsent : hub.selections.sent.toList = earlier ++ news) (hcursor : p.cursor = earlier.length) :
    hub.latest p = (lastOfOthers p.id (newest selectionCapacity news),
      { p with cursor := hub.selections.sent.size }) := by
  obtain ⟨-, hvalues⟩ := Broadcast.deliver_behind hsent
  rw [latest, hcursor, hvalues]
  rfl

end TraceViews
