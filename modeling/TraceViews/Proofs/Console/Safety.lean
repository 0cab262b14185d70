import TraceViews.Proofs.Console.Runs

/-!
# No run of a console fails

A console is settled when it is opened, and every input leaves it settled. So whatever comes to it,
each input is answered; in between no index is out of range, all rows are reported, and no view has
a selection to hear of (`Console.run_never_fails`).
-/

namespace TraceViews

/-! ## Opening -/

namespace View

variable {v : View} {s : Store} {hub hub' : Hub} {i : Nat}

/-- A view in a hub hears of the selections there, not of those who join. -/
theorem Settled.of_hub (h : v.Settled s hub i) (hselections : hub'.selections = hub.selections) :
    v.Settled s hub' i := by
  obtain ⟨p, hp, hid, hcursor⟩ := h.participant
  exact ⟨h.steady, h.notices, p, hp, hid, by rw [hselections]; exact hcursor⟩

theorem settled_ofStore (s : Store) (hub : Hub) :
    ((View.ofStore s).attach hub.join.1).Settled s hub hub.joined where
  steady := (Steady.ofStore s).keeps (.of_eq rfl rfl rfl rfl rfl)
  notices := by
    intro x hx
    rw [attach, ofStore] at hx
    simp [notices_current] at hx
  participant := ⟨_, rfl, rfl, rfl⟩

theorem Settled.takeNotices (h : v.Settled s hub i) : v.takeNotices.2.Settled s hub i where
  steady := h.steady.keeps (.of_eq rfl rfl rfl rfl rfl)
  notices := nofun
  participant := h.participant

end View

namespace Console

theorem settled_openViews {s : Store} {template : String} {n : Nat} {hub hub' : Hub}
    {views : Vector View n} (hjoined : hub.joined = 0)
    (h : openViews s template n hub = .ok (views, hub')) :
    hub'.joined = n ∧ ∀ (i : Nat) (hi : i < n), views[i].Settled s hub' i := by
  induction n generalizing hub' with
  | zero =>
    cases h
    exact ⟨hjoined, nofun⟩
  | succ n ih =>
    obtain ⟨⟨earlier, hub₁⟩, hearlier, h⟩ := exists_of_bind_eq_ok h
    obtain ⟨hjoined₁, hsettled⟩ := ih hearlier
    dsimp only at h
    split at h
    · cases h
    · next v hv =>
      cases h
      refine ⟨congrArg (· + 1) hjoined₁, ?_⟩
      intro i hi
      rw [Vector.getElem_push]
      split
      · next hlt => exact (hsettled i hlt).of_hub rfl
      · next hge =>
        have hlast : i = hub₁.joined := by omega
        rw [hlast]
        exact ((View.settled_ofStore s hub₁).setTemplate hv).of_hub rfl

theorem settled_installFirst {s : Store} {filter : Option String} {v v' : View} {hub : Hub}
    {i : Nat} (h : v.Settled s hub i) (hv : installFirst s filter v = .ok v') :
    v'.Settled s hub i := by
  rw [installFirst.eq_def] at hv
  split at hv
  · cases hv
    exact h
  · split at hv
    · next v₁ hinstall =>
      cases hv
      obtain ⟨filter, rfl⟩ := View.exists_install_of_setFilterText hinstall
      exact h.install filter
    · cases hv
      exact h
    · cases hv

/-- **A console is settled when it is opened.** -/
theorem settled_make {settings : Settings} {hpos : 0 < settings.views} {source : Source}
    {c : Console settings.views} (h : make settings hpos source = .ok c) : c.Settled := by
  obtain ⟨⟨views, hub⟩, hviews, h⟩ := exists_of_bind_eq_ok h
  obtain ⟨first, hfirst, h⟩ := exists_of_bind_eq_ok h
  obtain ⟨-, hsettled⟩ := settled_openViews rfl hviews
  cases h
  intro i hi
  show View.Settled ((views.set 0 first hpos).map fun v => v.takeNotices.2)[i] _ hub i
  rw [Vector.getElem_map, Vector.getElem_set]
  refine View.Settled.takeNotices ?_
  split
  · next heq =>
    rw [← heq]
    exact settled_installFirst (hsettled 0 hpos) hfirst
  · exact hsettled i hi

/-! ## Runs -/

variable {n : Nat} {c : Console n}

theorem settled_run (h : c.Settled) (inputs : List Input) :
    ∃ answers c', c.run inputs = .ok (answers, c') ∧
      answers.map Answer.flow = inputs.map Input.flow ∧ c'.Settled := by
  induction inputs generalizing c with
  | nil => exact ⟨[], c, rfl, rfl, h⟩
  | cons input inputs ih =>
    obtain ⟨step, hstep, hflow, hsettled⟩ := settled_respond h input
    obtain ⟨answers, c', hrun, hflows, hsettled'⟩ := ih hsettled
    refine ⟨⟨step.lines, step.flow⟩ :: answers, c', run_cons hstep hrun, ?_, hsettled'⟩
    rw [List.map_cons, List.map_cons, hflows, ← hflow]

/-- What can be relied on between two inputs. -/
structure AtRest (c : Console n) : Prop where
  /-- The active view is one of the views. -/
  active : (c.active : Nat) < n
  /-- Every view has reported the rows that it has. -/
  reported : ∀ v ∈ c.views.toList, v.reported = v.rowCount c.store
  /-- No notice but a reset waits. -/
  resets : ∀ v ∈ c.views.toList, ∀ x ∈ v.notices.toList, x = .reset
  /-- Every view takes part in the hub, and no selection waits for it. -/
  heard : ∀ v ∈ c.views.toList, ∃ p, v.participant = some p ∧
    (c.hub.selections.deliver p.cursor).missed = 0 ∧
    (c.hub.selections.deliver p.cursor).values = []
  /-- The rows stand for positions inside the store, and for the records there. -/
  inside : ∀ v ∈ c.views.toList, ∀ row ∈ (v.current c.store).rows.toList,
    c.store.records[row.index]? = some row.record

theorem Settled.atRest (h : c.Settled) : c.AtRest := by
  have hviews : ∀ v ∈ c.views.toList, ∃ i, v.Settled c.store c.hub i := by
    intro v hv
    obtain ⟨i, hi, rfl⟩ := Vector.mem_iff_getElem.1 (Vector.mem_toList_iff.1 hv)
    exact ⟨i, h i hi⟩
  constructor
  case active => exact c.active.isLt
  case reported =>
    intro v hv
    obtain ⟨i, hi⟩ := hviews v hv
    exact hi.steady.inSync.rowCount_eq.symm
  case resets =>
    intro v hv
    obtain ⟨i, hi⟩ := hviews v hv
    exact hi.notices
  case heard =>
    intro v hv
    obtain ⟨i, hi⟩ := hviews v hv
    obtain ⟨p, hp, -, hcursor⟩ := hi.participant
    have hbehind := Broadcast.deliver_behind
      (List.append_nil c.hub.selections.sent.toList).symm
    rw [Array.length_toList, ← hcursor] at hbehind
    exact ⟨p, hp, by simpa using hbehind⟩
  case inside =>
    intro v hv row hrow
    obtain ⟨i, hi⟩ := hviews v hv
    rw [hi.steady.inSync.current_eq] at hrow
    exact hi.steady.getElem?_of_mem_rows hrow

/-- **No run of a console fails.** Once it is open, every input is answered whatever came before,
the answer to `quit` alone ends the run, and after each run of inputs the console is at rest. -/
theorem run_never_fails (settings : Settings) (hpos : 0 < settings.views) (source : Source)
    (c : Console settings.views) (h : make settings hpos source = .ok c) (inputs : List Input) :
    ∃ answers c', c.run inputs = .ok (answers, c') ∧
      answers.map Answer.flow = inputs.map Input.flow ∧ c'.AtRest := by
  obtain ⟨answers, c', hrun, hflows, hsettled⟩ := settled_run (settled_make h) inputs
  exact ⟨answers, c', hrun, hflows, hsettled.atRest⟩

/-- A console with a record goes on after `quit`, with rows and times that are not there. -/
theorem run_behind_quit :
    let settings : Settings := { Settings.standard with backlog := 1 }
    let source : Source := ⟨⟨fun _ => 0, 0⟩, .counting 1 1, ["net"]⟩
    let inputs : List Input := [.receive [⟨"2", "net", 7, "up"⟩], .command .quit, .tick,
      .command (.select 5), .command (.list 1 Text.maxCount),
      .command (.filter (some "module eq \"net\"")), .command .clear, .command (.goto (-1)),
      .reject .empty, .shutdown]
    ∃ c, make settings (by decide) source = .ok c ∧
      ∃ answers c', c.run inputs = .ok (answers, c') ∧
        answers.map Answer.flow
          = [.goOn, .quit, .goOn, .goOn, .goOn, .goOn, .goOn, .goOn, .rejected, .goOn] ∧
        c'.AtRest := by
  intro settings source inputs
  obtain ⟨c, hc⟩ := exists_of_isOk (x := make settings (by decide) source) (by decide +kernel)
  exact ⟨c, hc, run_never_fails settings (by decide) source c hc inputs⟩

end Console

end TraceViews
