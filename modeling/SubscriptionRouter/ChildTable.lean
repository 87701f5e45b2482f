import Mathlib
import SubscriptionRouter.ChildStarts

set_option autoImplicit false

/-!
# The table of children and the starts

Only the start that holds the operation lock of an account registers a child of it, and
it has found the account without a child before. So the child in the table is the one
that the account's start knows.
-/
namespace SubscriptionRouter.ChildTable
open GoText Transitions Tallies ChildStarts

variable {u v : Router} {id : GoString} {ok : Bool}

def vacant : Start → Bool
  | .circuit | .launch | .register _ => true
  | _ => false

/-- The child that a start has found in the table or has registered. -/
def known : Start → Option ℕ
  | .inspect child | .discard child | .handshake child | .request child _ | .await child _
  | .notify child | .settle child | .drop child | .close child => some child
  | .check _ | .circuit | .launch | .register _ => none

/-- The process that a start has launched. -/
def launched : Start → Option ℕ
  | .register child | .handshake child | .request child _ | .await child _ | .notify child
  | .settle child | .drop child | .close child => some child
  | .check _ | .inspect _ | .discard _ | .circuit | .launch => none

structure TableInv (u : Router) : Prop where
  vacancy : ∀ (id : GoString) (s : Start), u.starts[id]? = some s → vacant s = true →
    u.children[id]? = none
  current : ∀ (id : GoString) (s : Start) (child k : ℕ), u.starts[id]? = some s →
    known s = some child → u.children[id]? = some k → k = child
  discards : ∀ (id : GoString) (child : ℕ), u.starts[id]? = some (.discard child) →
    u.exited child = true
  owner : ∀ (id : GoString) (k : ℕ), u.children[id]? = some k →
    ∃ p, u.processes[k]? = some p ∧ p.account = id
  startOwner : ∀ (id : GoString) (s : Start) (k : ℕ), u.starts[id]? = some s →
    launched s = some k → ∃ p, u.processes[k]? = some p ∧ p.account = id
  stored : ∀ id : GoString, (u.children[id]?).isSome = true ∨ (u.starts[id]?).isSome = true →
    id ∈ u.accounts

/-! ## Processes -/

/-- The processes `ps` go on as `qs`. -/
structure Evolves (ps qs : List Process) : Prop where
  back : ∀ (k : ℕ) (q : Process), qs[k]? = some q → ∃ p, ps[k]? = some p ∧
    q.account = p.account ∧ (p.exited = true → q.exited = true) ∧ (p.closed = true → q.closed = true)
  forth : ∀ (k : ℕ) (p : Process), ps[k]? = some p → ∃ q, qs[k]? = some q ∧
    q.account = p.account ∧ (p.exited = true → q.exited = true)

theorem Evolves.modify {f : Process → Process} (u : Router) (child : ℕ)
    (haccount : ∀ p, (f p).account = p.account)
    (hexited : ∀ p, p.exited = true → (f p).exited = true)
    (hclosed : ∀ p, p.closed = true → (f p).closed = true) :
    Evolves u.processes (u.modify child f).processes where
  back := fun k q hq => by
    rw [modify_processes] at hq
    obtain ⟨p, hp, rfl⟩ := Option.map_eq_some_iff.mp hq
    refine ⟨p, hp, ?_⟩
    split
    · exact ⟨haccount p, hexited p, hclosed p⟩
    · exact ⟨rfl, fun h => h, fun h => h⟩
  forth := fun k p hp => by
    rw [modify_processes, hp]
    refine ⟨_, rfl, ?_⟩
    split
    · exact ⟨haccount p, hexited p⟩
    · exact ⟨rfl, fun h => h⟩

theorem Evolves.send (u : Router) (child : ℕ) (frame : Frame) :
    Evolves u.processes (u.send child frame).processes :=
  .modify u child (fun _ => rfl) (fun _ h => h) fun _ h => h

theorem Evolves.closeChild (u : Router) (child : ℕ) :
    Evolves u.processes (u.closeChild child).processes :=
  .modify u child (fun _ => rfl) (fun _ h => h) fun _ _ => rfl

theorem Evolves.refl (ps : List Process) : Evolves ps ps :=
  ⟨fun _ p hp => ⟨p, hp, rfl, fun h => h, fun h => h⟩, fun _ p hp => ⟨p, hp, rfl, fun h => h⟩⟩

theorem Evolves.exited {child : ℕ} (h : Evolves u.processes v.processes)
    (hu : u.exited child = true) : v.exited child = true := by
  unfold Router.exited at hu ⊢
  cases hp : u.processes[child]? with
  | none =>
    rw [hp] at hu
    cases hu
  | some p =>
    rw [hp] at hu
    obtain ⟨q, hq, _, hexited⟩ := h.forth child p hp
    rw [hq]
    exact hexited hu

theorem Evolves.owned {ps qs : List Process} {k : ℕ} (h : Evolves ps qs)
    (hu : ∃ p, ps[k]? = some p ∧ p.account = id) : ∃ q, qs[k]? = some q ∧ q.account = id := by
  obtain ⟨p, hp, rfl⟩ := hu
  obtain ⟨q, hq, haccount, _⟩ := h.forth k p hp
  exact ⟨q, hq, haccount⟩

theorem closeChild_closed {child : ℕ} {p : Process}
    (hp : (u.closeChild child).processes[child]? = some p) : p.closed = true := by
  rw [Router.closeChild, modify_processes] at hp
  obtain ⟨q, _, rfl⟩ := Option.map_eq_some_iff.mp hp
  rw [if_pos rfl]

theorem getElem?_concat_some {ps : List Process} {q p : Process} {k : ℕ}
    (h : (ps ++ [q])[k]? = some p) : ps[k]? = some p ∨ (k = ps.length ∧ p = q) := by
  rcases Nat.lt_trichotomy k ps.length with hk | rfl | hk
  · rw [List.getElem?_append_left hk] at h
    exact .inl h
  · rw [List.getElem?_concat_length] at h
    exact .inr ⟨rfl, (Option.some.inj h).symm⟩
  · rw [List.getElem?_eq_none (by simp; omega)] at h
    cases h

theorem getElem?_concat_of_some {ps : List Process} (q : Process) {p : Process} {k : ℕ}
    (h : ps[k]? = some p) : (ps ++ [q])[k]? = some p := by
  rw [List.getElem?_append_left (List.getElem?_eq_some_iff.mp h).1]
  exact h

/-! ## The invariant -/

theorem TableInv.frame (hi : TableInv u) (hchildren : v.children = u.children)
    (hstarts : v.starts = u.starts) (haccounts : ∀ id ∈ u.accounts, id ∈ v.accounts)
    (hevolves : Evolves u.processes v.processes) : TableInv v where
  vacancy := by rw [hchildren, hstarts]; exact hi.vacancy
  current := by rw [hchildren, hstarts]; exact hi.current
  discards := fun id child h => by
    rw [hstarts] at h
    exact hevolves.exited (hi.discards id child h)
  owner := fun id k h => by
    rw [hchildren] at h
    exact hevolves.owned (hi.owner id k h)
  startOwner := fun id s k h hk => by
    rw [hstarts] at h
    exact hevolves.owned (hi.startOwner id s k h hk)
  stored := fun id h => by
    rw [hchildren, hstarts] at h
    exact haccounts id (hi.stored id h)

theorem TableInv.shrink (hi : TableInv u) {children : GoMap ℕ}
    (hsub : ∀ (a : GoString) (k : ℕ), children[a]? = some k → u.children[a]? = some k) :
    TableInv { u with children } where
  vacancy := fun a s hs hv => by
    have hnone := hi.vacancy a s hs hv
    cases hk : children[a]? with
    | none => rfl
    | some k =>
      rw [hsub a k hk] at hnone
      cases hnone
  current := fun a s c k h hc hk => hi.current a s c k h hc (hsub a k hk)
  discards := hi.discards
  owner := fun a k h => hi.owner a k (hsub a k h)
  startOwner := hi.startOwner
  stored := fun a h => hi.stored a (h.imp_left fun h => by
    obtain ⟨k, hk⟩ := Option.isSome_iff_exists.mp h
    rw [hsub a k hk]
    rfl)

theorem removed_sub (u : Router) (id : GoString) (child : ℕ) (a : GoString) (k : ℕ)
    (h : (u.removeChildIfCurrent id child).children[a]? = some k) : u.children[a]? = some k := by
  rw [removeChildIfCurrent_children] at h
  split at h
  · cases h
  · exact h

theorem TableInv.removeChildIfCurrent (hi : TableInv u) (id : GoString) (child : ℕ) :
    TableInv (u.removeChildIfCurrent id child) :=
  hi.shrink (removed_sub u id child)

theorem TableInv.removed_none (hi : TableInv u) {s : Start} {child : ℕ}
    (hs : u.starts[id]? = some s) (hknown : known s = some child) :
    (u.removeChildIfCurrent id child).children[id]? = none := by
  rw [removeChildIfCurrent_children]
  split
  · rfl
  · rename_i hother
    cases hk : u.children[id]? with
    | none => rfl
    | some k =>
      obtain rfl := hi.current id s child k hs hknown hk
      exact absurd ⟨rfl, hk⟩ hother

/-- The start of one account takes a step that leaves the rest alone. -/
theorem TableInv.setStart (hi : TableInv u) (next : Option Start)
    (hvacant : next.any vacant = true → u.children[id]? = none)
    (hcurrent : ∀ child k, next.bind known = some child → u.children[id]? = some k → k = child)
    (hdiscard : ∀ child, next = some (.discard child) → u.exited child = true)
    (howner : ∀ k, next.bind launched = some k → ∃ p, u.processes[k]? = some p ∧ p.account = id)
    (hstored : next.isSome = true → id ∈ u.accounts) :
    TableInv { u with starts := putStart u.starts id next } := by
  have hput := fun a => putStart_getElem? id a u.starts next
  exact {
    vacancy := fun a s hs hv => by
      rw [hput] at hs
      split at hs
      · rename_i ha
        subst ha
        exact hvacant (by rw [hs]; exact hv)
      · exact hi.vacancy a s hs hv
    current := fun a s child k hs hc hk => by
      rw [hput] at hs
      split at hs
      · rename_i ha
        subst ha
        exact hcurrent child k (by rw [hs]; exact hc) hk
      · exact hi.current a s child k hs hc hk
    discards := fun a child hs => by
      rw [hput] at hs
      split at hs
      · exact hdiscard child hs
      · exact hi.discards a child hs
    owner := hi.owner
    startOwner := fun a s k hs hk => by
      rw [hput] at hs
      split at hs
      · rename_i ha
        subst ha
        exact howner k (by rw [hs]; exact hk)
      · exact hi.startOwner a s k hs hk
    stored := fun a h => by
      rw [hput] at h
      rcases h with h | h
      · exact hi.stored a (.inl h)
      · split at h
        · rename_i ha
          subst ha
          exact hstored h
        · exact hi.stored a (.inr h) }

/-- A start goes on with the child it knows, or ends. -/
theorem TableInv.moveStart (hi : TableInv u) {s : Start} (hs : u.starts[id]? = some s)
    (next : Option Start) (hvacant : next.any vacant = true → vacant s = true)
    (hknown : ∀ child, next.bind known = some child → known s = some child)
    (hdiscard : ∀ child, next = some (.discard child) → u.exited child = true)
    (hlaunched : ∀ k, next.bind launched = some k → launched s = some k) :
    TableInv { u with starts := putStart u.starts id next } :=
  hi.setStart next (fun h => hi.vacancy id s hs (hvacant h))
    (fun child k hc hk => hi.current id s child k hs (hknown child hc) hk) hdiscard
    (fun k hk => hi.startOwner id s k hs (hlaunched k hk))
    fun _ => hi.stored id (.inr (by rw [hs]; rfl))

theorem TableInv.launch (hi : TableInv u) (hs : u.starts[id]? = some .launch) :
    TableInv { u with
      processes := u.processes ++ [{ account := id }]
      starts := putStart u.starts id (some (.register u.processes.length)) } := by
  have hput := fun a => putStart_getElem? id a u.starts (some (.register u.processes.length))
  have hkeep : ∀ {a : GoString} {k : ℕ}, (∃ p, u.processes[k]? = some p ∧ p.account = a) →
      ∃ p, (u.processes ++ [{ account := id }])[k]? = some p ∧ p.account = a := by
    rintro a k ⟨p, hp, ha⟩
    exact ⟨p, getElem?_concat_of_some _ hp, ha⟩
  exact {
    vacancy := fun a s hs' hv => by
      rw [hput] at hs'
      split at hs'
      · rename_i ha
        exact ha ▸ hi.vacancy id _ hs rfl
      · exact hi.vacancy a s hs' hv
    current := fun a s child k hs' hc hk => by
      rw [hput] at hs'
      split at hs'
      · cases hs'
        cases hc
      · exact hi.current a s child k hs' hc hk
    discards := fun a child hs' => by
      rw [hput] at hs'
      split at hs'
      · cases hs'
      · have hexited := hi.discards a child hs'
        unfold Router.exited at hexited ⊢
        cases hp : u.processes[child]? with
        | none =>
          rw [hp] at hexited
          cases hexited
        | some p =>
          rw [getElem?_concat_of_some _ hp]
          rw [hp] at hexited
          exact hexited
    owner := fun a k hk => hkeep (hi.owner a k hk)
    startOwner := fun a s k hs' hk => by
      rw [hput] at hs'
      split at hs'
      · rename_i ha
        cases hs'
        cases hk
        exact ⟨_, List.getElem?_concat_length, ha⟩
      · exact hkeep (hi.startOwner a s k hs' hk)
    stored := fun a h => by
      rw [hput] at h
      rcases h with h | h
      · exact hi.stored a (.inl h)
      · split at h
        · rename_i ha
          exact ha ▸ hi.stored id (.inr (by rw [hs]; rfl))
        · exact hi.stored a (.inr h) }

theorem TableInv.register (hi : TableInv u) {child : ℕ}
    (hs : u.starts[id]? = some (.register child)) :
    TableInv { u with
      children := u.children.insert id child
      starts := putStart u.starts id (some (.handshake child)) } := by
  have hput := fun a => putStart_getElem? id a u.starts (some (.handshake child))
  have hins := getElem?_insert_eq u.children id
  exact {
    vacancy := fun a s hs' hv => by
      rw [hput] at hs'
      rw [hins]
      split at hs'
      · cases hs'
        cases hv
      · rename_i ha
        rw [if_neg ha]
        exact hi.vacancy a s hs' hv
    current := fun a s c k hs' hc hk => by
      rw [hput] at hs'
      rw [hins] at hk
      split at hs'
      · rename_i ha
        rw [if_pos ha] at hk
        cases hs'
        cases hc
        exact (Option.some.inj hk).symm
      · rename_i ha
        rw [if_neg ha] at hk
        exact hi.current a s c k hs' hc hk
    discards := fun a c hs' => by
      rw [hput] at hs'
      split at hs'
      · cases hs'
      · exact hi.discards a c hs'
    owner := fun a k hk => by
      rw [hins] at hk
      split at hk
      · rename_i ha
        cases hk
        exact ha ▸ hi.startOwner id _ child hs rfl
      · exact hi.owner a k hk
    startOwner := fun a s k hs' hk => by
      rw [hput] at hs'
      split at hs'
      · rename_i ha
        cases hs'
        exact ha ▸ hi.startOwner id _ k hs hk
      · exact hi.startOwner a s k hs' hk
    stored := fun a h => by
      rw [hins, hput] at h
      by_cases ha : id = a
      · exact ha ▸ hi.stored id (.inr (by rw [hs]; rfl))
      · rw [if_neg ha, if_neg ha] at h
        exact hi.stored a h }

theorem TableInv.goStart (hi : TableInv u) (h : u.goStart id ok = some v) : TableInv v := by
  obtain ⟨s, hs, rfl⟩ := Option.map_eq_some_iff.mp h
  have hstored : id ∈ u.accounts := hi.stored id (.inr (by rw [hs]; rfl))
  have hsend : ∀ child frame, TableInv (u.send child frame) := fun child frame =>
    hi.frame rfl rfl (fun _ h => h) (.send u child frame)
  cases s with
  | check enabled =>
    simp only [Router.startStep]
    split
    · exact hi.moveStart hs none nofun nofun nofun nofun
    · split
      · rename_i child hchild
        refine hi.setStart (some (.inspect child)) nofun (fun c k hc hk => ?_) nofun nofun
          fun _ => hstored
        cases hc
        exact Option.some.inj (hk.symm.trans hchild)
      · rename_i hnone
        exact hi.setStart (some .circuit) (fun _ => hnone) nofun nofun nofun fun _ => hstored
  | inspect child =>
    simp only [Router.startStep]
    split
    · rename_i hexited
      refine hi.moveStart hs (some (.discard child)) nofun (fun _ h => h) (fun c hc => ?_) nofun
      cases hc
      exact hexited
    · exact hi.moveStart hs none nofun nofun nofun nofun
  | discard child =>
    exact (hi.removeChildIfCurrent id child).setStart (some .circuit)
      (fun _ => hi.removed_none hs rfl) nofun nofun nofun fun _ => hstored
  | circuit =>
    simp only [Router.startStep]
    split
    · exact hi.moveStart hs (some .launch) (fun _ => rfl) nofun nofun nofun
    · exact hi.moveStart hs none nofun nofun nofun nofun
  | launch =>
    simp only [Router.startStep]
    split
    · exact hi.launch hs
    · exact hi.moveStart hs none nofun nofun nofun nofun
  | register child => exact hi.register hs
  | handshake child =>
    simp only [Router.startStep]
    split
    · exact hi.moveStart hs (some (.settle child)) nofun (fun _ h => h) nofun fun _ h => h
    · exact hi.moveStart hs (some (.request child u.initialized)) nofun (fun _ h => h) nofun
        fun _ h => h
  | request child initialized =>
    have hmove := (hsend child .initializeRequest).moveStart (s := .request child initialized) hs
    simp only [Router.startStep]
    split
    · exact hmove (some (.drop child)) nofun (fun _ h => h) nofun fun _ h => h
    · exact hmove (some (.await child initialized)) nofun (fun _ h => h) nofun fun _ h => h
  | await child initialized =>
    simp only [Router.startStep]
    split
    · exact hi.moveStart hs (some (.drop child)) nofun (fun _ h => h) nofun fun _ h => h
    · split
      · exact hi.moveStart hs (some (.notify child)) nofun (fun _ h => h) nofun fun _ h => h
      · exact hi.moveStart hs (some (.settle child)) nofun (fun _ h => h) nofun fun _ h => h
  | notify child =>
    exact (hsend child .initializedNotice).moveStart (s := .notify child) hs
      (some (.settle child)) nofun (fun _ h => h) nofun fun _ h => h
  | settle child => exact hi.moveStart hs none nofun nofun nofun nofun
  | drop child =>
    exact (hi.removeChildIfCurrent id child).moveStart (s := .drop child) hs
      (some (.close child)) nofun (fun _ h => h) nofun fun _ h => h
  | close child =>
    have hclosed : TableInv (u.closeChild child) :=
      hi.frame rfl rfl (fun _ h => h) (.closeChild u child)
    exact hclosed.moveStart (s := .close child) hs none nofun nofun nofun nofun

theorem TableInv.quiet (hi : TableInv u) (hchildren : v.children = u.children)
    (hstarts : v.starts = u.starts) (haccounts : v.accounts = u.accounts)
    (hevolves : Evolves u.processes v.processes) : TableInv v :=
  hi.frame hchildren hstarts (fun _ h => haccounts ▸ h) hevolves

theorem TableInv.goClient (hi : TableInv u) (h : u.goClient = some v) : TableInv v := by
  unfold Router.goClient at h
  split at h
  · cases h
    exact hi.quiet rfl rfl rfl (.refl _)
  · cases h
    exact hi.quiet rfl rfl rfl (.refl _)
  · split at h <;> cases h
    exact hi.quiet rfl rfl rfl (.refl _)
  · cases h
    exact hi.quiet rfl rfl rfl (Evolves.closeChild u _)
  · split at h <;> cases h
    exact hi.quiet rfl rfl rfl (.refl _)
  · cases h
  · cases h

theorem TableInv.dropFailed (hi : TableInv u) (h : u.dropFailed id = some v) : TableInv v := by
  unfold Router.dropFailed at h
  split at h
  · obtain ⟨child, _, rfl⟩ := Option.map_eq_some_iff.mp h
    have hgone := hi.removeChildIfCurrent id child
    exact hgone.quiet rfl rfl rfl (.refl _)
  · cases h

theorem TableInv.goNotice (hi : TableInv u) (h : u.goNotice = some v) : TableInv v := by
  unfold Router.goNotice at h
  split at h
  · cases h
    exact hi.quiet rfl rfl rfl (.refl _)
  · cases h
    exact hi.quiet rfl rfl rfl (.refl _)
  · split at h <;> cases h
    exact hi.quiet rfl rfl rfl (.refl _)
  · cases h
  · cases h

theorem TableInv.goClose (hi : TableInv u) (h : u.goClose = some v) : TableInv v := by
  unfold Router.goClose at h
  split at h
  · cases h
    exact hi.quiet rfl rfl rfl (.refl _)
  · cases h
    exact hi.quiet rfl rfl rfl (.refl _)
  · cases h
    have hempty : TableInv { u with children := ∅ } := hi.shrink fun a k h => by simp at h
    exact hempty.quiet rfl rfl rfl (.refl _)
  · split at h <;> cases h
    exact hi.quiet rfl rfl rfl (.refl _)
  · cases h
  · cases h

theorem TableInv.step {l : Action} (hi : TableInv u) (h : step u l = some v) : TableInv v := by
  cases l with
  | addAccount id =>
    simp only [ChildStarts.step] at h
    split at h <;> cases h
    exact hi.frame rfl rfl (fun _ h => List.mem_append_left _ h) (.refl _)
  | start id enabled =>
    simp only [ChildStarts.step] at h
    split at h <;> cases h
    rename_i hidle
    exact hi.setStart (some (.check enabled)) (fun h => by cases h) (fun _ _ h => by cases h)
      (fun _ h => by cases h) (fun _ h => by cases h) fun _ => hidle.1
  | goStart id ok => exact hi.goStart h
  | exit child =>
    obtain ⟨p, _, rfl⟩ := Option.map_eq_some_iff.mp h
    exact hi.quiet rfl rfl rfl (.modify u child (fun _ => rfl) (fun _ _ => rfl) fun _ h => h)
  | monitor child =>
    obtain ⟨p, _, _, rfl⟩ := monitor_cases h
    exact hi.removeChildIfCurrent p.account child
  | clientInitialize params =>
    obtain rfl | ⟨_, rfl⟩ := clientInitialize_cases h
    · exact hi
    · exact hi.quiet rfl rfl rfl (.refl _)
  | goClient => exact hi.goClient h
  | ask id ok =>
    simp only [ChildStarts.step, Router.ask] at h
    split at h
    · obtain ⟨child, _, rfl⟩ := Option.map_eq_some_iff.mp h
      exact hi.quiet rfl rfl rfl (Evolves.send u child _)
    · cases h
  | answer id ok =>
    simp only [ChildStarts.step, Router.answer] at h
    split at h
    · obtain ⟨child, _, rfl⟩ := Option.map_eq_some_iff.mp h
      exact hi.quiet rfl rfl rfl (.refl _)
    · cases h
  | dropFailed id => exact hi.dropFailed h
  | clientInitialized =>
    obtain rfl | ⟨_, _, rfl⟩ := clientInitialized_cases h
    · exact hi
    · exact hi.quiet rfl rfl rfl (.refl _)
  | goNotice => exact hi.goNotice h
  | notify id =>
    simp only [ChildStarts.step, Router.notify] at h
    split at h
    · obtain ⟨child, _, rfl⟩ := Option.map_eq_some_iff.mp h
      exact hi.quiet rfl rfl rfl (Evolves.send u child _)
    · cases h
  | close =>
    simp only [ChildStarts.step] at h
    split at h <;> cases h
    exact hi.quiet rfl rfl rfl (.refl _)
  | goClose => exact hi.goClose h
  | closeEntry id =>
    simp only [ChildStarts.step, Router.closeEntry] at h
    split at h
    · obtain ⟨child, _, rfl⟩ := Option.map_eq_some_iff.mp h
      exact hi.quiet rfl rfl rfl (Evolves.closeChild u child)
    · cases h

theorem init_table (accounts : List GoString) : TableInv (.init accounts) where
  vacancy := fun a s hs => by simp [Router.init] at hs
  current := fun a s child k hs => by simp [Router.init] at hs
  discards := fun a child hs => by simp [Router.init] at hs
  owner := fun a k hk => by simp [Router.init] at hk
  startOwner := fun a s k hs => by simp [Router.init] at hs
  stored := fun a h => by simp [Router.init] at h

end SubscriptionRouter.ChildTable
