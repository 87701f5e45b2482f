import Mathlib
import SubscriptionRouter.ChildTable

set_option autoImplicit false

/-!
# `Close` leaves nothing running

Every process is exited, closed, in the table of children, or the charge of a goroutine
that will register or close it: a start, a client's `initialize` that failed, or `Close`.
-/
namespace SubscriptionRouter.ChildShutdown
open GoText Transitions Tallies ChildStarts ChildTable

variable {u v : Router} {id : GoString} {ok : Bool}

/-- A start that has passed the closing check and may still register a process. -/
def unregistered : Start → Bool
  | .inspect _ | .discard _ | .circuit | .launch | .register _ => true
  | _ => false

/-- The process outside the table that a start will register or close. -/
def charge : Start → Option ℕ
  | .register child | .close child => some child
  | _ => none

/-- The child that a client's `initialize` has taken out of the table. -/
def dropped : Client → Option ℕ
  | .dropping _ child => child
  | _ => none

/-- The children that `Close` has yet to close. -/
def leftover : Closing → GoMap ℕ
  | .replace entries | .closing entries => entries
  | _ => ∅

/-- `Close` has taken its snapshot of the children. -/
def snapshotTaken : Closing → Bool
  | .replace _ | .closing _ | .returned => true
  | _ => false

/-- `Close` has returned and no start or client's `initialize` is in the middle of
closing or registering a child. -/
def closedDown (u : Router) : Bool :=
  match u.close with
  | .returned => u.starts.isEmpty && (dropped u.client).isNone
  | _ => false

/-- Once `Close` has returned and the starts have completed, the table of children is
empty and every process has been closed or has exited. -/
def NothingRuns (u : Router) : Prop :=
  closedDown u = true → u.children = ∅ ∧ ∀ p ∈ u.processes, p.closed = true ∨ p.exited = true

/-- `Close` reads the table. -/
def takesSnapshot (u : Router) : Action → Bool
  | .goClose => match u.close with
    | .children _ => true
    | _ => false
  | _ => false

/-- When `Close` takes its snapshot, every start that has passed the closing check has
registered its process or ended. -/
def StartsRegistered (u : Router) (l : Action) : Prop :=
  takesSnapshot u l = true → ∀ e ∈ u.starts.toList, unregistered e.2 = false

/-- A process that is exited or closed, or in somebody's charge. -/
def Charged (u : Router) (k : ℕ) (p : Process) : Prop :=
  p.closed = true ∨ p.exited = true ∨ (u.starts[p.account]?).bind charge = some k ∨
    dropped u.client = some k ∨ (leftover u.close)[p.account]? = some k

structure ShutdownInv (u : Router) : Prop where
  table : TableInv u
  flag : u.close = .unused ∨ u.closing = true
  late : snapshotTaken u.close = true → ∀ (id : GoString) (s : Start),
    u.starts[id]? = some s → unregistered s = false
  listed : ∀ list, u.close = .children list → ∀ id : GoString,
    (u.children[id]?).isSome = true ∨ (u.starts[id]?).any unregistered = true → id ∈ list
  snapshot : ∀ entries, u.close = .replace entries → ∀ (id : GoString) (k : ℕ),
    u.children[id]? = some k → entries[id]? = some k
  emptied : (∃ entries, u.close = .closing entries) ∨ u.close = .returned → u.children = ∅
  accounted : ∀ (k : ℕ) (p : Process), u.processes[k]? = some p →
    u.children[p.account]? = some k ∨ Charged u k p

/-- What `Close` and the starts have is unchanged. -/
theorem ShutdownInv.frame (hi : ShutdownInv u) (htable : TableInv v)
    (hchildren : v.children = u.children) (hstarts : v.starts = u.starts)
    (hclosing : v.closing = u.closing) (hclose : v.close = u.close)
    (hevolves : Evolves u.processes v.processes)
    (hdropped : ∀ k, dropped u.client = some k → dropped v.client = some k ∨
      ∀ p, v.processes[k]? = some p → p.closed = true) : ShutdownInv v where
  table := htable
  flag := by rw [hclose, hclosing]; exact hi.flag
  late := by rw [hclose, hstarts]; exact hi.late
  listed := by rw [hclose, hchildren, hstarts]; exact hi.listed
  snapshot := by rw [hclose, hchildren]; exact hi.snapshot
  emptied := by rw [hclose, hchildren]; exact hi.emptied
  accounted := fun k p' hp' => by
    obtain ⟨p, hp, haccount, hexited, hclosed⟩ := hevolves.back k p' hp'
    unfold Charged
    rw [hchildren, hstarts, hclose, haccount]
    rcases hi.accounted k p hp with h | h | h | h | h | h
    · exact .inl h
    · exact .inr (.inl (hclosed h))
    · exact .inr (.inr (.inl (hexited h)))
    · exact .inr (.inr (.inr (.inl h)))
    · rcases hdropped k h with h | h
      · exact .inr (.inr (.inr (.inr (.inl h))))
      · exact .inr (.inl (h p' hp'))
    · exact .inr (.inr (.inr (.inr (.inr h))))

theorem ShutdownInv.removeChildIfCurrent (hi : ShutdownInv u) (id : GoString) (child : ℕ)
    (hcharged : u.children[id]? = some child → ∀ p, u.processes[child]? = some p →
      Charged u child p) : ShutdownInv (u.removeChildIfCurrent id child) := by
  have hsub := removed_sub u id child
  exact {
    table := hi.table.removeChildIfCurrent id child
    flag := hi.flag
    late := hi.late
    listed := fun list hl a h => hi.listed list hl a (h.imp_left fun h => by
      obtain ⟨k, hk⟩ := Option.isSome_iff_exists.mp h
      rw [hsub a k hk]
      rfl)
    snapshot := fun entries he a k h => hi.snapshot entries he a k (hsub a k h)
    emptied := fun h => by
      have hempty := hi.emptied h
      refine Std.ExtTreeMap.ext_getElem? fun a => ?_
      cases hk : (u.removeChildIfCurrent id child).children[a]? with
      | none => exact Std.ExtTreeMap.getElem?_empty.symm
      | some k =>
        have hk := hsub a k hk
        rw [hempty] at hk
        simp at hk
    accounted := fun k p hp => by
      rcases hi.accounted k p hp with h | h
      · rw [removeChildIfCurrent_children]
        split
        · rename_i hcurrent
          obtain ⟨rfl, hc⟩ := hcurrent
          obtain rfl := Option.some.inj (h.symm.trans hc)
          exact .inr (hcharged hc p hp)
        · exact .inl h
      · exact .inr h }

/-! ## The starts -/

theorem ShutdownInv.setStart (hi : ShutdownInv u) (next : Option Start)
    (htable : TableInv { u with starts := putStart u.starts id next })
    (hlate : snapshotTaken u.close = true → next.any unregistered = false)
    (hlisted : ∀ list, u.close = .children list → next.any unregistered = true → id ∈ list)
    (hcharge : ∀ k p, u.processes[k]? = some p → (u.starts[id]?).bind charge = some k →
      p.closed = true ∨ next.bind charge = some k) :
    ShutdownInv { u with starts := putStart u.starts id next } := by
  have hput := fun a => putStart_getElem? id a u.starts next
  exact {
    table := htable
    flag := hi.flag
    late := fun h a s hs => by
      rw [hput] at hs
      split at hs
      · have hn := hlate h
        rw [hs] at hn
        exact hn
      · exact hi.late h a s hs
    listed := fun list hl a h => by
      rw [hput] at h
      rcases h with h | h
      · exact hi.listed list hl a (.inl h)
      · split at h
        · rename_i ha
          subst ha
          exact hlisted list hl h
        · exact hi.listed list hl a (.inr h)
    snapshot := hi.snapshot
    emptied := hi.emptied
    accounted := fun k p hp => by
      unfold Charged
      rw [hput]
      rcases hi.accounted k p hp with h | h | h | h | h
      · exact .inl h
      · exact .inr (.inl h)
      · exact .inr (.inr (.inl h))
      · split
        · rename_i ha
          rw [← ha] at h
          rcases hcharge k p hp h with h | h
          · exact .inr (.inl h)
          · exact .inr (.inr (.inr (.inl h)))
        · exact .inr (.inr (.inr (.inl h)))
      · exact .inr (.inr (.inr (.inr h))) }

theorem ShutdownInv.moveStart (hi : ShutdownInv u) {s : Start} (hs : u.starts[id]? = some s)
    (next : Option Start) (htable : TableInv { u with starts := putStart u.starts id next })
    (hun : next.any unregistered = true → unregistered s = true)
    (hcharge : ∀ k p, u.processes[k]? = some p → charge s = some k →
      p.closed = true ∨ next.bind charge = some k) :
    ShutdownInv { u with starts := putStart u.starts id next } := by
  refine hi.setStart next htable (fun h => ?_) (fun list hl h => ?_)
    fun k p hp hk => hcharge k p hp (by rw [hs] at hk; exact hk)
  · cases hn : next.any unregistered with
    | false => rfl
    | true =>
      have hlate := hi.late h id s hs
      rw [hun hn] at hlate
      cases hlate
  · exact hi.listed list hl id (.inr (by rw [hs]; exact hun h))

theorem ShutdownInv.launch (hi : ShutdownInv u) (hs : u.starts[id]? = some .launch) :
    ShutdownInv { u with
      processes := u.processes ++ [{ account := id }]
      starts := putStart u.starts id (some (.register u.processes.length)) } := by
  have hput := fun a => putStart_getElem? id a u.starts (some (.register u.processes.length))
  exact {
    table := hi.table.launch hs
    flag := hi.flag
    late := fun h => by cases hi.late h id _ hs
    listed := fun list hl a h => by
      rw [hput] at h
      rcases h with h | h
      · exact hi.listed list hl a (.inl h)
      · split at h
        · rename_i ha
          exact ha ▸ hi.listed list hl id (.inr (by rw [hs]; rfl))
        · exact hi.listed list hl a (.inr h)
    snapshot := hi.snapshot
    emptied := hi.emptied
    accounted := fun k p hp => by
      unfold Charged
      rw [hput]
      rcases getElem?_concat_some hp with hp | ⟨rfl, rfl⟩
      · rcases hi.accounted k p hp with h | h | h | h | h
        · exact .inl h
        · exact .inr (.inl h)
        · exact .inr (.inr (.inl h))
        · split
          · rename_i ha
            rw [← ha, hs] at h
            cases h
          · exact .inr (.inr (.inr (.inl h)))
        · exact .inr (.inr (.inr (.inr h)))
      · exact .inr (.inr (.inr (.inl (by rw [if_pos rfl]; rfl)))) }

theorem ShutdownInv.register (hi : ShutdownInv u) {child : ℕ}
    (hs : u.starts[id]? = some (.register child)) :
    ShutdownInv { u with
      children := u.children.insert id child
      starts := putStart u.starts id (some (.handshake child)) } := by
  have hput := fun a => putStart_getElem? id a u.starts (some (.handshake child))
  have hins := getElem?_insert_eq u.children id
  have hopen : snapshotTaken u.close = false := by
    cases h : snapshotTaken u.close with
    | false => rfl
    | true => cases hi.late h id _ hs
  exact {
    table := hi.table.register hs
    flag := hi.flag
    late := fun h => by
      rw [hopen] at h
      cases h
    listed := fun list hl a h => by
      rw [hins, hput] at h
      by_cases ha : id = a
      · exact ha ▸ hi.listed list hl id (.inr (by rw [hs]; rfl))
      · rw [if_neg ha, if_neg ha] at h
        exact hi.listed list hl a h
    snapshot := fun entries he => by
      have he' : u.close = .replace entries := he
      rw [he'] at hopen
      cases hopen
    emptied := fun h => by
      have hclose : (∃ entries, u.close = .closing entries) ∨ u.close = .returned := h
      rcases hclose with ⟨entries, he⟩ | he
      all_goals
        rw [he] at hopen
        cases hopen
    accounted := fun k p hp => by
      unfold Charged
      rw [hput, hins]
      by_cases ha : id = p.account
      · rw [if_pos ha, if_pos ha]
        rcases hi.accounted k p hp with h | h | h | h | h
        · rw [← ha, hi.table.vacancy id _ hs rfl] at h
          cases h
        · exact .inr (.inl h)
        · exact .inr (.inr (.inl h))
        · rw [← ha, hs] at h
          exact .inl h
        · exact .inr (.inr (.inr (.inr h)))
      · rw [if_neg ha, if_neg ha]
        exact hi.accounted k p hp }

theorem ShutdownInv.send (hi : ShutdownInv u) (child : ℕ) (frame : Frame) :
    ShutdownInv (u.send child frame) :=
  hi.frame (hi.table.frame rfl rfl (fun _ h => h) (.send u child frame)) rfl rfl rfl rfl
    (.send u child frame) fun _ h => .inl h

theorem ShutdownInv.closeChild (hi : ShutdownInv u) (child : ℕ) :
    ShutdownInv (u.closeChild child) :=
  hi.frame (hi.table.frame rfl rfl (fun _ h => h) (.closeChild u child)) rfl rfl rfl rfl
    (.closeChild u child) fun _ h => .inl h

theorem ShutdownInv.goStart (hi : ShutdownInv u) (h : u.goStart id ok = some v) :
    ShutdownInv v := by
  have htable := hi.table.goStart h
  obtain ⟨s, hs, rfl⟩ := Option.map_eq_some_iff.mp h
  dsimp only at htable ⊢
  cases s with
  | check enabled =>
    simp only [Router.startStep] at htable ⊢
    by_cases hopen : (u.closing || !enabled) = true
    · rw [if_pos hopen] at htable ⊢
      exact hi.moveStart hs none htable (fun h => by cases h) fun _ _ _ h => by cases h
    · rw [if_neg hopen] at htable ⊢
      have hunused : u.close = .unused := hi.flag.resolve_right fun hc => hopen (by simp [hc])
      have hnew : ∀ next : Start, TableInv { u with starts := putStart u.starts id (some next) } →
          ShutdownInv { u with starts := putStart u.starts id (some next) } := by
        intro next htable
        refine hi.setStart (some next) htable (fun h => ?_) (fun list hl => ?_) fun k p _ hk => ?_
        · rw [hunused] at h
          cases h
        · rw [hunused] at hl
          cases hl
        · rw [hs] at hk
          cases hk
      split at htable <;> exact hnew _ htable
  | inspect child =>
    simp only [Router.startStep] at htable ⊢
    by_cases hexited : u.exited child = true
    · rw [if_pos hexited] at htable ⊢
      exact hi.moveStart hs (some (.discard child)) htable (fun _ => rfl) fun _ _ _ h => by cases h
    · rw [if_neg hexited] at htable ⊢
      exact hi.moveStart hs none htable (fun h => by cases h) fun _ _ _ h => by cases h
  | discard child =>
    have hgone := hi.removeChildIfCurrent id child fun _ p hp => by
      have hexited := hi.table.discards id child hs
      rw [Router.exited, hp] at hexited
      exact .inr (.inl hexited)
    exact hgone.moveStart (s := .discard child) hs (some .circuit) htable (fun _ => rfl)
      fun _ _ _ h => by cases h
  | circuit =>
    cases ok with
    | true =>
      exact hi.moveStart hs (some .launch) htable (fun _ => rfl) fun _ _ _ h => by cases h
    | false =>
      exact hi.moveStart hs none htable (fun h => by cases h) fun _ _ _ h => by cases h
  | launch =>
    cases ok with
    | true => exact hi.launch hs
    | false =>
      exact hi.moveStart hs none htable (fun h => by cases h) fun _ _ _ h => by cases h
  | register child => exact hi.register hs
  | handshake child =>
    refine hi.moveStart hs _ htable (fun h => ?_) fun _ _ _ h => by cases h
    simp only [Router.startStep] at h
    split at h <;> cases h
  | request child initialized =>
    refine (hi.send child .initializeRequest).moveStart (s := .request child initialized) hs _
      htable (fun h => ?_) fun _ _ _ h => by cases h
    simp only [Router.startStep] at h
    split at h <;> cases h
  | await child initialized =>
    refine hi.moveStart hs _ htable (fun h => ?_) fun _ _ _ h => by cases h
    simp only [Router.startStep] at h
    split at h
    · cases h
    · split at h <;> cases h
  | notify child =>
    exact (hi.send child .initializedNotice).moveStart (s := .notify child) hs
      (some (.settle child)) htable (fun h => by cases h) fun _ _ _ h => by cases h
  | settle child =>
    exact hi.moveStart hs none htable (fun h => by cases h) fun _ _ _ h => by cases h
  | drop child =>
    have hmoved : ShutdownInv { u with starts := putStart u.starts id (some (.close child)) } :=
      hi.moveStart hs (some (.close child)) (hi.table.moveStart hs _ (fun h => by cases h)
        (fun _ h => h) (fun _ h => by cases h) fun _ h => h) (fun h => by cases h)
          fun _ _ _ h => by cases h
    refine hmoved.removeChildIfCurrent id child fun _ p hp => ?_
    obtain ⟨q, hq, haccount⟩ := hi.table.startOwner id _ child hs rfl
    obtain rfl := Option.some.inj (hp.symm.trans hq)
    refine .inr (.inr (.inl ?_))
    rw [putStart_getElem?, if_pos haccount.symm]
    rfl
  | close child =>
    refine (hi.closeChild child).moveStart (s := .close child) hs none htable (fun h => by cases h)
      fun k p hp hk => .inl ?_
    cases hk
    exact closeChild_closed hp

/-! ## The client's requests and `Close` -/

/-- The client's requests and notices change, and no child is in charge of `initialize`. -/
theorem ShutdownInv.talk (hi : ShutdownInv u) (htable : TableInv v)
    (hclient : dropped u.client = none) (hchildren : v.children = u.children)
    (hstarts : v.starts = u.starts) (hclosing : v.closing = u.closing)
    (hclose : v.close = u.close) (hevolves : Evolves u.processes v.processes) :
    ShutdownInv v := by
  refine hi.frame htable hchildren hstarts hclosing hclose hevolves ?_
  intro k hk
  rw [hclient] at hk
  cases hk

theorem ShutdownInv.goClient (hi : ShutdownInv u) (htable : TableInv v)
    (h : u.goClient = some v) : ShutdownInv v := by
  unfold Router.goClient at h
  split at h
  · rename_i hc
    cases h
    exact hi.talk htable (by rw [hc]; rfl) rfl rfl rfl rfl (.refl _)
  · rename_i hc
    cases h
    exact hi.talk htable (by rw [hc]; rfl) rfl rfl rfl rfl (.refl _)
  · rename_i hc
    split at h <;> cases h
    exact hi.talk htable (by rw [hc]; rfl) rfl rfl rfl rfl (.refl _)
  · rename_i failed child hc
    cases h
    refine hi.frame htable rfl rfl rfl rfl (Evolves.closeChild u child) fun k hk => .inr ?_
    rw [hc] at hk
    cases hk
    exact fun p hp => closeChild_closed hp
  · rename_i hc
    split at h <;> cases h
    exact hi.talk htable (by rw [hc]; rfl) rfl rfl rfl rfl (.refl _)
  · cases h
  · cases h

theorem ShutdownInv.ask (hi : ShutdownInv u) (htable : TableInv v)
    (h : u.ask id ok = some v) : ShutdownInv v := by
  unfold Router.ask at h
  split at h
  · rename_i hc
    obtain ⟨child, _, rfl⟩ := Option.map_eq_some_iff.mp h
    exact hi.talk htable (by rw [hc]; rfl) rfl rfl rfl rfl (Evolves.send u child _)
  · cases h

theorem ShutdownInv.answer (hi : ShutdownInv u) (htable : TableInv v)
    (h : u.answer id ok = some v) : ShutdownInv v := by
  unfold Router.answer at h
  split at h
  · rename_i hc
    obtain ⟨child, _, rfl⟩ := Option.map_eq_some_iff.mp h
    exact hi.talk htable (by rw [hc]; rfl) rfl rfl rfl rfl (.refl _)
  · cases h

theorem ShutdownInv.dropFailed (hi : ShutdownInv u) (h : u.dropFailed id = some v) :
    ShutdownInv v := by
  unfold Router.dropFailed at h
  split at h
  · rename_i failed hc
    obtain ⟨child, _, rfl⟩ := Option.map_eq_some_iff.mp h
    have htaken : ShutdownInv { u with
        client := .dropping (failed.erase id)
          (if u.children[id]? = some child then some child else none) } :=
      hi.talk (hi.table.frame rfl rfl (fun _ h => h) (.refl _)) (by rw [hc]; rfl) rfl rfl rfl rfl
        (.refl _)
    refine htaken.removeChildIfCurrent id child fun hcurrent _ _ =>
      .inr (.inr (.inr (.inl ?_)))
    exact if_pos hcurrent
  · cases h

theorem ShutdownInv.goNotice (hi : ShutdownInv u) (htable : TableInv v)
    (h : u.goNotice = some v) : ShutdownInv v := by
  unfold Router.goNotice at h
  split at h
  · cases h
    exact hi.frame htable rfl rfl rfl rfl (.refl _) fun _ h => .inl h
  · cases h
    exact hi.frame htable rfl rfl rfl rfl (.refl _) fun _ h => .inl h
  · split at h <;> cases h
    exact hi.frame htable rfl rfl rfl rfl (.refl _) fun _ h => .inl h
  · cases h
  · cases h

theorem ShutdownInv.notify (hi : ShutdownInv u) (htable : TableInv v)
    (h : u.notify id = some v) : ShutdownInv v := by
  unfold Router.notify at h
  split at h
  · obtain ⟨child, _, rfl⟩ := Option.map_eq_some_iff.mp h
    exact hi.frame htable rfl rfl rfl rfl (Evolves.send u child _) fun _ h => .inl h
  · cases h

/-- `Close` goes on to `close`, and the table may change with it. -/
theorem ShutdownInv.setClose (hi : ShutdownInv u) {close : Closing} {children : GoMap ℕ}
    (htable : TableInv { u with children, close }) (hclosing : u.closing = true)
    (hlate : snapshotTaken close = true → ∀ (a : GoString) (s : Start),
      u.starts[a]? = some s → unregistered s = false)
    (hlisted : ∀ list, close = .children list → ∀ a : GoString,
      (children[a]?).isSome = true ∨ (u.starts[a]?).any unregistered = true → a ∈ list)
    (hsnapshot : ∀ entries, close = .replace entries → ∀ (a : GoString) (k : ℕ),
      children[a]? = some k → entries[a]? = some k)
    (hemptied : (∃ entries, close = .closing entries) ∨ close = .returned → children = ∅)
    (hcharged : ∀ (k : ℕ) (p : Process), u.processes[k]? = some p →
      u.children[p.account]? = some k ∨ (leftover u.close)[p.account]? = some k →
        children[p.account]? = some k ∨ (leftover close)[p.account]? = some k ∨ p.closed = true) :
    ShutdownInv { u with children, close } where
  table := htable
  flag := .inr hclosing
  late := hlate
  listed := hlisted
  snapshot := hsnapshot
  emptied := hemptied
  accounted := fun k p hp => by
    have hmoved : u.children[p.account]? = some k ∨ (leftover u.close)[p.account]? = some k →
        children[p.account]? = some k ∨ Charged { u with children, close } k p := fun h =>
      (hcharged k p hp h).imp_right fun h => h.elim (fun h => .inr (.inr (.inr (.inr h)))) .inl
    rcases hi.accounted k p hp with h | h | h | h | h | h
    · exact hmoved (.inl h)
    · exact .inr (.inl h)
    · exact .inr (.inr (.inl h))
    · exact .inr (.inr (.inr (.inl h)))
    · exact .inr (.inr (.inr (.inr (.inl h))))
    · exact hmoved (.inr h)

theorem ShutdownInv.goClose (hi : ShutdownInv u) (htable : TableInv v)
    (hguard : StartsRegistered u .goClose) (h : u.goClose = some v) : ShutdownInv v := by
  unfold Router.goClose at h
  split at h
  · rename_i hc
    cases h
    refine hi.setClose htable (hi.flag.resolve_left (by rw [hc]; nofun)) nofun
      (fun list hl a h => ?_) nofun (fun h => ?_) fun k p _ h => ?_
    · cases hl
      refine hi.table.stored a (h.imp_right fun h => ?_)
      cases hs : u.starts[a]? with
      | none =>
        rw [hs] at h
        cases h
      | some s => rfl
    · rcases h with ⟨_, h⟩ | h <;> cases h
    · rw [hc] at h
      exact h.imp_right .inl
  · rename_i list hc
    cases h
    refine hi.setClose htable (hi.flag.resolve_left (by rw [hc]; nofun))
      (fun _ a s hs => ?_) nofun (fun entries he a k hk => ?_) (fun h => ?_) fun k p _ h => ?_
    · exact hguard (by rw [takesSnapshot, hc]) (a, s) (Std.ExtTreeMap.mem_toList_iff_getElem?_eq_some.mpr hs)
    · cases he
      exact (entries_eq_some u a k list).mpr ⟨hk, hi.listed list hc a (.inl (by rw [hk]; rfl))⟩
    · rcases h with ⟨_, h⟩ | h <;> cases h
    · rw [hc] at h
      rcases h with h | h
      · exact .inl h
      · exact absurd h (by simp [leftover])
  · rename_i entries hc
    cases h
    refine hi.setClose htable (hi.flag.resolve_left (by rw [hc]; nofun))
      (fun _ => hi.late (by rw [hc]; rfl)) nofun nofun (fun _ => rfl) fun k p _ h => .inr (.inl ?_)
    · rw [hc] at h
      rcases h with h | h
      · exact hi.snapshot entries hc _ k h
      · exact h
  · rename_i entries hc
    split at h <;> cases h
    rename_i hempty
    refine hi.setClose htable (hi.flag.resolve_left (by rw [hc]; nofun))
      (fun _ => hi.late (by rw [hc]; rfl)) nofun nofun
      (fun _ => hi.emptied (.inl ⟨entries, hc⟩)) fun k p _ h => ?_
    rw [hc, Std.ExtTreeMap.isEmpty_iff.mp hempty] at h
    exact h.imp_right .inl
  · cases h
  · cases h

theorem ShutdownInv.closeEntry (hi : ShutdownInv u) (htable : TableInv v)
    (h : u.closeEntry id = some v) : ShutdownInv v := by
  unfold Router.closeEntry at h
  split at h
  · rename_i entries hc
    obtain ⟨child, hchild, rfl⟩ := Option.map_eq_some_iff.mp h
    refine (hi.closeChild child).setClose htable (hi.flag.resolve_left (by rw [hc]; nofun))
      (fun _ => hi.late (by rw [hc]; rfl)) nofun nofun
      (fun _ => hi.emptied (.inl ⟨entries, hc⟩)) fun k p hp h => ?_
    rcases h with h | h
    · exact .inl h
    · change (leftover u.close)[p.account]? = some k at h
      rw [hc] at h
      change entries[p.account]? = some k at h
      by_cases ha : id = p.account
      · rw [← ha, hchild] at h
        cases h
        exact .inr (.inr (closeChild_closed hp))
      · refine .inr (.inl ?_)
        change (entries.erase id)[p.account]? = some k
        rw [getElem?_erase_eq, if_neg ha]
        exact h
  · cases h

theorem ShutdownInv.step {l : Action} (hi : ShutdownInv u)
    (h : Guarded StartsRegistered (Fires step) u l v) : ShutdownInv v := by
  obtain ⟨hguard, h⟩ := h
  have htable := hi.table.step h
  cases l with
  | addAccount id =>
    simp only [Fires, ChildStarts.step] at h
    split at h <;> cases h
    exact hi.frame htable rfl rfl rfl rfl (.refl _) fun _ h => .inl h
  | start id enabled =>
    simp only [Fires, ChildStarts.step] at h
    split at h <;> cases h
    rename_i hidle
    refine hi.setStart (some (.check enabled)) htable (fun _ => rfl)
      (fun _ _ h => by cases h) fun k p _ hk => ?_
    rw [hidle.2] at hk
    cases hk
  | goStart id ok => exact hi.goStart h
  | exit child =>
    obtain ⟨p, _, rfl⟩ := Option.map_eq_some_iff.mp h
    exact hi.frame htable rfl rfl rfl rfl
      (.modify u child (fun _ => rfl) (fun _ _ => rfl) fun _ h => h) fun _ h => .inl h
  | monitor child =>
    obtain ⟨p, hp, hexited, rfl⟩ := monitor_cases h
    refine hi.removeChildIfCurrent p.account child fun _ q hq => ?_
    obtain rfl := Option.some.inj (hp.symm.trans hq)
    exact .inr (.inl hexited)
  | clientInitialize params =>
    obtain rfl | ⟨hc, rfl⟩ := clientInitialize_cases h
    · exact hi
    · exact hi.talk htable (by rw [hc]; rfl) rfl rfl rfl rfl (.refl _)
  | goClient => exact hi.goClient htable h
  | ask id ok => exact hi.ask htable h
  | answer id ok => exact hi.answer htable h
  | dropFailed id => exact hi.dropFailed h
  | clientInitialized =>
    obtain rfl | ⟨_, _, rfl⟩ := clientInitialized_cases h
    · exact hi
    · exact hi.frame htable rfl rfl rfl rfl (.refl _) fun _ h => .inl h
  | goNotice => exact hi.goNotice htable h
  | notify id => exact hi.notify htable h
  | close =>
    simp only [Fires, ChildStarts.step] at h
    split at h
    · rename_i hc
      cases h
      exact {
        table := htable
        flag := .inr rfl
        late := fun h => by cases h
        listed := fun _ h => by cases h
        snapshot := fun _ h => by cases h
        emptied := fun h => by rcases h with ⟨_, h⟩ | h <;> cases h
        accounted := fun k p hp => by
          have h := hi.accounted k p hp
          unfold Charged at h ⊢
          rw [hc] at h
          exact h }
    · cases h
  | goClose => exact hi.goClose htable hguard h
  | closeEntry id => exact hi.closeEntry htable h

theorem init_shutdown (accounts : List GoString) : ShutdownInv (.init accounts) where
  table := init_table accounts
  flag := .inl rfl
  late := nofun
  listed := nofun
  snapshot := nofun
  emptied := fun h => by rcases h with ⟨_, h⟩ | h <;> cases h
  accounted := fun k p hp => by simp [Router.init] at hp

theorem ShutdownInv.nothingRuns (hi : ShutdownInv u) : NothingRuns u := by
  intro hdown
  unfold closedDown at hdown
  split at hdown
  · rename_i hc
    obtain ⟨hstarts, hdropped⟩ := Bool.and_eq_true_iff.mp hdown
    have hempty := hi.emptied (.inr hc)
    refine ⟨hempty, fun p hp => ?_⟩
    obtain ⟨k, hk⟩ := List.mem_iff_getElem?.mp hp
    rcases hi.accounted k p hk with h | h | h | h | h | h
    · rw [hempty] at h
      simp at h
    · exact .inl h
    · exact .inr h
    · rw [Std.ExtTreeMap.isEmpty_iff.mp hstarts] at h
      simp at h
    · rw [Option.isNone_iff_eq_none.mp hdropped] at h
      cases h
    · rw [hc] at h
      simp [leftover] at h
  · cases hdown

/-- In a run in which no start is between the closing check and the registration of its
process when `Close` takes its snapshot, `Close` leaves nothing running. -/
theorem startsRegistered_runs_leave_nothing {accounts : List GoString} {ls : List Action}
    (h : Runs (Guarded StartsRegistered (Fires step)) (.init accounts) ls u) : NothingRuns u :=
  (h.invariant (init_shutdown accounts) fun _ _ _ hi => hi.step).nothingRuns

instance (u : Router) (l : Action) : Decidable (StartsRegistered u l) :=
  inferInstanceAs (Decidable (takesSnapshot u l = true → ∀ e ∈ u.starts.toList,
    unregistered e.2 = false))

def go (id : GoString) (n : ℕ) : List Action := List.replicate n (.goStart id true)

def oneAccount : Router := .init [lit "a"]

/-- Closing, reading the accounts, the children, emptying the table. -/
def closes : List Action := [.close, .goClose, .goClose, .goClose]

/-- The child of `a` is started, and `Close` closes it. -/
theorem startsRegistered_runs_leave_nothing_closed :
    ∃ u, NothingRuns u ∧ closedDown u = true ∧ u.processes.length = 1 := by
  have h : (exec (guard StartsRegistered step) oneAccount
      (.start (lit "a") true :: go (lit "a") 6 ++ closes ++ [.closeEntry (lit "a"), .goClose])).any
        (fun u => closedDown u = true ∧ u.processes.length = 1) = true := by
    decide +kernel
  obtain ⟨u, hr, hu⟩ := guarded_runs_of_exec_any h
  exact ⟨u, startsRegistered_runs_leave_nothing hr, of_decide_eq_true hu⟩

/-- The start of the child of `a` passes the closing check, `Close` runs to its end, and
then the start launches and registers its process. -/
theorem start_past_closing_check_runs_on :
    ∃ ls u, Runs (Fires step) oneAccount ls u ∧ ¬ NothingRuns u := by
  have h : (exec step oneAccount
      (.start (lit "a") true :: go (lit "a") 1 ++ closes ++ [.goClose] ++ go (lit "a") 5)).any
        (fun u => closedDown u = true ∧ u.children[lit "a"]? = some 0) = true := by
    decide
  obtain ⟨u, hr, hu⟩ := runs_of_exec_any h
  obtain ⟨hdown, hchild⟩ := of_decide_eq_true hu
  refine ⟨_, u, hr, fun hnothing => ?_⟩
  rw [(hnothing hdown).1] at hchild
  simp at hchild

end SubscriptionRouter.ChildShutdown
