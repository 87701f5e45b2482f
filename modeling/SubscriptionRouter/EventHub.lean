import Mathlib
import SubscriptionRouter.EventDelivery
import SubscriptionRouter.Transitions

set_option autoImplicit false

/-!
# Subscribers to the events of the multiplexer

`publish` holds the lock for reading while it offers an event to each channel in turn, and never
waits for a channel. `SubscribeEvents` and the function it returns hold the lock for writing. All
of them and the receivers run at the same time. A call of `publish` has a number of its own, which
the events carry along in the model.
-/
namespace SubscriptionRouter.EventHub
open Transitions

def capacity : ℕ := 32

/-- `received` is what its receiver has taken from it. -/
structure Channel (E : Type) where
  made : Bool
  closed : Bool
  waiting : List (ℕ × E)
  received : List (ℕ × E)

/-- `visited` are the channels that the loop has come to. -/
inductive Publisher (E : Type) where
  | idle
  | visiting (event : E) (visited : Finset ℕ)
  | done

/-- `readers` are the calls that hold the lock for reading. A send on a closed channel panics, and
so does closing it again. -/
structure Hub (E : Type) where
  channels : ℕ → Channel E
  events : Finset ℕ
  publishers : ℕ → Publisher E
  readers : Finset ℕ
  panicked : Bool

inductive Label (E : Type) where
  | subscribe (c : ℕ)
  | unsubscribe (c : ℕ)
  | publish (p : ℕ) (event : E)
  | visit (p c : ℕ)
  | finish (p : ℕ)
  | receive (c : ℕ)
  deriving DecidableEq

variable {E : Type}

def Hub.setChannel (h : Hub E) (c : ℕ) (x : Channel E) : Hub E :=
  { h with channels := Function.update h.channels c x }

def Hub.setPublisher (h : Hub E) (p : ℕ) (x : Publisher E) : Hub E :=
  { h with publishers := Function.update h.publishers p x }

def Hub.subscribeEvents (h : Hub E) (c : ℕ) : Hub E :=
  { h.setChannel c ⟨true, false, [], []⟩ with events := insert c h.events }

/-- The function that `SubscribeEvents` returns. -/
def Hub.unsubscribe (h : Hub E) (c : ℕ) : Hub E :=
  if c ∈ h.events then
    { h.setChannel c { h.channels c with closed := true } with
      events := h.events.erase c
      panicked := h.panicked || (h.channels c).closed }
  else h

/-- `select` with a default: a channel that is full is left alone. -/
def Channel.offer (x : Channel E) (item : ℕ × E) : Channel E :=
  if x.waiting.length < capacity then { x with waiting := x.waiting ++ [item] } else x

def Hub.offer (h : Hub E) (p c : ℕ) (event : E) : Hub E :=
  { h.setChannel c ((h.channels c).offer (p, event)) with
    panicked := h.panicked || (h.channels c).closed }

def step (h : Hub E) : Label E → Option (Hub E)
  | .subscribe c =>
    if h.readers = ∅ ∧ (h.channels c).made = false then some (h.subscribeEvents c) else none
  | .unsubscribe c =>
    if h.readers = ∅ ∧ (h.channels c).made = true then some (h.unsubscribe c) else none
  | .publish p event =>
    match h.publishers p with
    | .idle => some { h.setPublisher p (.visiting event ∅) with readers := insert p h.readers }
    | _ => none
  | .visit p c =>
    match h.publishers p with
    | .visiting event visited =>
      if c ∈ h.events ∧ c ∉ visited then
        some ((h.offer p c event).setPublisher p (.visiting event (insert c visited)))
      else none
    | _ => none
  | .finish p =>
    match h.publishers p with
    | .visiting _ visited =>
      if h.events ⊆ visited then some { h.setPublisher p .done with readers := h.readers.erase p } else none
    | _ => none
  | .receive c =>
    match (h.channels c).waiting with
    | item :: waiting =>
      some (h.setChannel c { h.channels c with
        waiting := waiting, received := (h.channels c).received ++ [item] })
    | [] => none

def start : Hub E := ⟨fun _ => ⟨false, false, [], []⟩, ∅, fun _ => .idle, ∅, false⟩

/-! ## What a step does -/

inductive Effect (h : Hub E) : Label E → Hub E → Prop where
  | subscribe {c : ℕ} (hfree : h.readers = ∅) (hnew : (h.channels c).made = false) :
      Effect h (.subscribe c) (h.subscribeEvents c)
  | unsubscribe {c : ℕ} (hfree : h.readers = ∅) (hmade : (h.channels c).made = true) :
      Effect h (.unsubscribe c) (h.unsubscribe c)
  | publish {p : ℕ} {event : E} (hidle : h.publishers p = .idle) :
      Effect h (.publish p event)
        { h.setPublisher p (.visiting event ∅) with readers := insert p h.readers }
  | visit {p c : ℕ} {event : E} {visited : Finset ℕ}
      (hvisiting : h.publishers p = .visiting event visited) (hc : c ∈ h.events) (hnew : c ∉ visited) :
      Effect h (.visit p c) ((h.offer p c event).setPublisher p (.visiting event (insert c visited)))
  | finish {p : ℕ} {event : E} {visited : Finset ℕ}
      (hvisiting : h.publishers p = .visiting event visited) (hall : h.events ⊆ visited) :
      Effect h (.finish p) { h.setPublisher p .done with readers := h.readers.erase p }
  | receive {c : ℕ} {item : ℕ × E} {waiting : List (ℕ × E)}
      (hwaiting : (h.channels c).waiting = item :: waiting) :
      Effect h (.receive c) (h.setChannel c { h.channels c with
        waiting := waiting, received := (h.channels c).received ++ [item] })

theorem effect_of_step {h h' : Hub E} {l : Label E} (hstep : step h l = some h') : Effect h l h' := by
  cases l with
  | subscribe c =>
    rw [step] at hstep
    split at hstep
    · rename_i hguard
      cases hstep
      exact .subscribe hguard.1 hguard.2
    · cases hstep
  | unsubscribe c =>
    rw [step] at hstep
    split at hstep
    · rename_i hguard
      cases hstep
      exact .unsubscribe hguard.1 hguard.2
    · cases hstep
  | publish p event =>
    rw [step] at hstep
    split at hstep
    · cases hstep
      exact .publish ‹_›
    · cases hstep
  | visit p c =>
    rw [step] at hstep
    split at hstep
    · split at hstep
      · rename_i hguard
        cases hstep
        exact .visit ‹_› hguard.1 hguard.2
      · cases hstep
    · cases hstep
  | finish p =>
    rw [step] at hstep
    split at hstep
    · split at hstep
      · cases hstep
        exact .finish ‹_› ‹_›
      · cases hstep
    · cases hstep
  | receive c =>
    rw [step] at hstep
    split at hstep
    · cases hstep
      exact .receive ‹_›
    · cases hstep

/-! ## Locks and channels -/

/-- A call in its loop holds the lock, and the channels of the subscribers are open. -/
structure Orderly (h : Hub E) : Prop where
  reading : ∀ p event visited, h.publishers p = .visiting event visited → p ∈ h.readers
  subscribed : ∀ c ∈ h.events, (h.channels c).made = true ∧ (h.channels c).closed = false
  calm : h.panicked = false

theorem start_orderly : Orderly (start : Hub E) :=
  ⟨fun _ _ _ h => (by cases h), fun _ h => absurd h (Finset.notMem_empty _), rfl⟩

theorem offer_made (x : Channel E) (item : ℕ × E) : (x.offer item).made = x.made := by
  unfold Channel.offer
  split <;> rfl

theorem offer_closed (x : Channel E) (item : ℕ × E) : (x.offer item).closed = x.closed := by
  unfold Channel.offer
  split <;> rfl

theorem channels_update {h : Hub E} {c d : ℕ} {x : Channel E} {P : Channel E → Prop} (hx : d = c → P x)
    (hd : d ≠ c → P (h.channels d)) : P (Function.update h.channels c x d) := by
  by_cases hdc : d = c
  · subst hdc
    rw [Function.update_self]
    exact hx rfl
  · rw [Function.update_of_ne hdc]
    exact hd hdc

theorem Effect.orderly {h h' : Hub E} {l : Label E} (he : Effect h l h') (ho : Orderly h) :
    Orderly h' := by
  have hnobody : h.readers = ∅ → ∀ p event visited, h.publishers p ≠ .visiting event visited := by
    intro hfree p event visited hp
    have hmem := ho.reading p event visited hp
    rw [hfree] at hmem
    exact absurd hmem (Finset.notMem_empty _)
  cases he with
  | @subscribe c hfree hnew =>
    refine ⟨fun p event visited hp => absurd hp (hnobody hfree p event visited), fun d hd => ?_, ho.calm⟩
    refine channels_update (P := fun x => x.made = true ∧ x.closed = false)
      (fun _ => ⟨rfl, rfl⟩) fun hdc => ?_
    exact ho.subscribed d ((Finset.mem_insert.mp hd).resolve_left hdc)
  | @unsubscribe c hfree hmade =>
    unfold Hub.unsubscribe
    split
    · rename_i hc
      refine ⟨fun p event visited hp => absurd hp (hnobody hfree p event visited), fun d hd => ?_, ?_⟩
      · obtain ⟨hdc, hd⟩ := Finset.mem_erase.mp hd
        exact channels_update (P := fun x => x.made = true ∧ x.closed = false) (fun h => absurd h hdc)
          fun _ => ho.subscribed d hd
      · show (h.panicked || (h.channels c).closed) = false
        rw [ho.calm, (ho.subscribed c hc).2]
        rfl
    · exact ho
  | @publish p event hidle =>
    refine ⟨fun q e visited hq => ?_, ho.subscribed, ho.calm⟩
    by_cases hqp : q = p
    · exact hqp ▸ Finset.mem_insert_self _ _
    · simp only [Hub.setPublisher, Function.update_of_ne hqp] at hq
      exact Finset.mem_insert_of_mem (ho.reading q e visited hq)
  | @visit p c event visited hvisiting hc hnew =>
    refine ⟨fun q e rest hq => ?_, fun d hd => ?_, ?_⟩
    · by_cases hqp : q = p
      · exact hqp ▸ ho.reading p event visited hvisiting
      · simp only [Hub.setPublisher, Function.update_of_ne hqp] at hq
        exact ho.reading q e rest hq
    · refine channels_update (P := fun x => x.made = true ∧ x.closed = false) (fun hdc => ?_)
        fun _ => ho.subscribed d hd
      rw [offer_made, offer_closed, ← hdc]
      exact ho.subscribed d hd
    · show (h.panicked || (h.channels c).closed) = false
      rw [ho.calm, (ho.subscribed c hc).2]
      rfl
  | @finish p event visited hvisiting hall =>
    refine ⟨fun q e rest hq => ?_, ho.subscribed, ho.calm⟩
    by_cases hqp : q = p
    · subst hqp
      simp only [Hub.setPublisher, Function.update_self] at hq
      cases hq
    · simp only [Hub.setPublisher, Function.update_of_ne hqp] at hq
      exact Finset.mem_erase.mpr ⟨hqp, ho.reading q e rest hq⟩
  | @receive c item waiting hwaiting =>
    refine ⟨ho.reading, fun d hd => ?_, ho.calm⟩
    refine channels_update (P := fun x => x.made = true ∧ x.closed = false) (fun hdc => ?_)
      fun _ => ho.subscribed d hd
    rw [← hdc]
    exact ho.subscribed d hd

theorem orderly_of_runs {h : Hub E} {ls : List (Label E)} (hr : Runs (Fires step) start ls h) :
    Orderly h :=
  hr.invariant start_orderly fun _ _ _ ho hstep => (effect_of_step hstep).orderly ho

/-- One call of `publish`, and a subscriber. -/
def oneEvent (event : E) : List (Label E) :=
  [.subscribe 0, .publish 5 event, .visit 5 0, .finish 5, .receive 0]

theorem oneEvent_run (event : E) : ∃ h, Runs (Fires step) start (oneEvent event) h ∧
    (h.channels 0).received = [(5, event)] :=
  ⟨_, exec_runs (show exec step start (oneEvent event) = some _ from rfl), rfl⟩

/-- No event is sent on a closed channel, and no channel is closed twice. -/
theorem never_panics {h : Hub E} {ls : List (Label E)} (hr : Runs (Fires step) start ls h) :
    h.panicked = false ∧ ∀ c ∈ h.events, (h.channels c).made = true ∧ (h.channels c).closed = false :=
  ⟨(orderly_of_runs hr).calm, (orderly_of_runs hr).subscribed⟩

theorem never_panics_oneEvent : ∃ h : Hub ℕ, Runs (Fires step) start (oneEvent 7) h ∧
    h.panicked = false ∧ ∀ c ∈ h.events, (h.channels c).made = true ∧ (h.channels c).closed = false := by
  obtain ⟨h, hr, -⟩ := oneEvent_run 7
  exact ⟨h, hr, never_panics hr⟩

/-! ## What a channel was offered -/

def offered (c : ℕ) : Label E → Option ℕ
  | .visit p d => if d = c then some p else none
  | _ => none

def offers (c : ℕ) (ls : List (Label E)) : List ℕ := ls.filterMap (offered c)

def Channel.items (x : Channel E) : List (ℕ × E) := x.received ++ x.waiting

structure Recorded (ls : List (Label E)) (h : Hub E) : Prop where
  idle : ∀ p, h.publishers p = .idle → (∀ c, p ∉ offers c ls) ∧ ∀ event, .publish p event ∉ ls
  visiting : ∀ p event visited, h.publishers p = .visiting event visited →
    .publish p event ∈ ls ∧ ∀ c, p ∈ offers c ls → c ∈ visited
  named : ∀ p event event', .publish p event ∈ ls → .publish p event' ∈ ls → event = event'
  once : ∀ c, (offers c ls).Nodup
  items : ∀ c, ((h.channels c).items.map Prod.fst).Sublist (offers c ls)
  source : ∀ c, ∀ x ∈ (h.channels c).items, .publish x.1 x.2 ∈ ls

theorem offers_other {ls : List (Label E)} {l : Label E} {c : ℕ} (h : offered c l = none) :
    offers c (ls ++ [l]) = offers c ls := filterMap_concat_none h ls

theorem offers_visit (ls : List (Label E)) (p c : ℕ) :
    offers c (ls ++ [.visit p c]) = offers c ls ++ [p] :=
  filterMap_concat_some (by simp [offered]) ls

theorem start_recorded : Recorded [] (start : Hub E) where
  idle := fun _ _ => ⟨fun _ => List.not_mem_nil, fun _ => List.not_mem_nil⟩
  visiting := fun _ _ _ h => by cases h
  named := fun _ _ _ h => absurd h List.not_mem_nil
  once := fun _ => List.nodup_nil
  items := fun _ => List.Sublist.refl _
  source := fun _ _ h => absurd h List.not_mem_nil

/-- A step that publishes and offers nothing, and puts nothing into a channel. -/
theorem Recorded.quiet {ls : List (Label E)} {l : Label E} {h h' : Hub E} (hrec : Recorded ls h)
    (hl : ∀ c, offered c l = none) (hquiet : ∀ p event, l ≠ .publish p event)
    (hidle : ∀ p, h'.publishers p = .idle → h.publishers p = .idle)
    (hvisiting : ∀ p event visited, h'.publishers p = .visiting event visited →
      h.publishers p = .visiting event visited)
    (hitems : ∀ c, (h'.channels c).items = (h.channels c).items ∨ (h'.channels c).items = []) :
    Recorded (ls ++ [l]) h' := by
  have hoffers : ∀ c, offers c (ls ++ [l]) = offers c ls := fun c => offers_other (hl c)
  have hpublished : ∀ {p : ℕ} {event : E}, Label.publish p event ∈ ls ++ [l] → .publish p event ∈ ls := by
    intro p event hmem
    refine (List.mem_append.mp hmem).resolve_right fun hlast => ?_
    exact hquiet p event (List.mem_singleton.mp hlast).symm
  refine ⟨fun p hp => ?_, fun p event visited hp => ?_, fun p event event' hmem hmem' => ?_, fun c => ?_,
    fun c => ?_, fun c x hx => ?_⟩
  · obtain ⟨hnone, hnot⟩ := hrec.idle p (hidle p hp)
    exact ⟨fun c => (hoffers c).symm ▸ hnone c, fun event hmem => hnot event (hpublished hmem)⟩
  · obtain ⟨hpublish, hvisited⟩ := hrec.visiting p event visited (hvisiting p event visited hp)
    exact ⟨List.mem_append_left _ hpublish, fun c hc => hvisited c (hoffers c ▸ hc)⟩
  · exact hrec.named p event event' (hpublished hmem) (hpublished hmem')
  · rw [hoffers]
    exact hrec.once c
  · rw [hoffers]
    rcases hitems c with hsame | hnone
    · rw [hsame]
      exact hrec.items c
    · rw [hnone]
      exact List.nil_sublist _
  · rcases hitems c with hsame | hnone
    · rw [hsame] at hx
      exact List.mem_append_left _ (hrec.source c x hx)
    · rw [hnone] at hx
      cases hx

theorem Recorded.publish {ls : List (Label E)} {h : Hub E} (hrec : Recorded ls h) {p : ℕ} (event : E)
    (hidle : h.publishers p = .idle) : Recorded (ls ++ [.publish p event])
      { h.setPublisher p (.visiting event ∅) with readers := insert p h.readers } := by
  obtain ⟨hnone, hnot⟩ := hrec.idle p hidle
  have hoffers : ∀ c, offers c (ls ++ [.publish p event]) = offers c ls := fun c => offers_other rfl
  have hpublished : ∀ {q : ℕ} {e : E}, Label.publish q e ∈ ls ++ [.publish p event] →
      .publish q e ∈ ls ∨ q = p ∧ e = event := by
    intro q e hmem
    simpa using hmem
  refine ⟨fun q hq => ?_, fun q e visited hq => ?_, fun q e e' hmem hmem' => ?_, fun c => ?_, fun c => ?_,
    fun c x hx => List.mem_append_left _ (hrec.source c x hx)⟩
  · by_cases hqp : q = p
    · subst hqp
      simp only [Hub.setPublisher, Function.update_self] at hq
      cases hq
    · simp only [Hub.setPublisher, Function.update_of_ne hqp] at hq
      obtain ⟨hnone, hnot⟩ := hrec.idle q hq
      refine ⟨fun c => (hoffers c).symm ▸ hnone c, fun e hmem => ?_⟩
      exact (hpublished hmem).elim (hnot e) fun hand => hqp hand.1
  · by_cases hqp : q = p
    · subst hqp
      simp only [Hub.setPublisher, Function.update_self, Publisher.visiting.injEq] at hq
      refine ⟨List.mem_append_right _ (List.mem_singleton.mpr (by rw [hq.1])), fun c hc => ?_⟩
      exact absurd (hoffers c ▸ hc) (hnone c)
    · simp only [Hub.setPublisher, Function.update_of_ne hqp] at hq
      obtain ⟨hpublish, hvisited⟩ := hrec.visiting q e visited hq
      exact ⟨List.mem_append_left _ hpublish, fun c hc => hvisited c (hoffers c ▸ hc)⟩
  · rcases hpublished hmem with hold | ⟨hq, he⟩
    · rcases hpublished hmem' with hold' | ⟨hq', -⟩
      · exact hrec.named q e e' hold hold'
      · exact absurd (hq' ▸ hold) (hnot e)
    · rcases hpublished hmem' with hold' | ⟨-, he'⟩
      · exact absurd (hq ▸ hold') (hnot e')
      · rw [he, he']
  · rw [hoffers]
    exact hrec.once c
  · rw [hoffers]
    exact hrec.items c

theorem items_offer (x : Channel E) (item : ℕ × E) :
    (x.offer item).items = x.items ∨ (x.offer item).items = x.items ++ [item] := by
  unfold Channel.offer
  split
  · exact .inr (List.append_assoc _ _ _).symm
  · exact .inl rfl

theorem Recorded.visit {ls : List (Label E)} {h : Hub E} (hrec : Recorded ls h) {p c : ℕ} {event : E}
    {visited : Finset ℕ} (hp : h.publishers p = .visiting event visited) (hc : c ∉ visited) :
    Recorded (ls ++ [.visit p c]) ((h.offer p c event).setPublisher p
      (.visiting event (insert c visited))) := by
  obtain ⟨hpublish, hvisited⟩ := hrec.visiting p event visited hp
  have hother : ∀ d, d ≠ c → offers d (ls ++ [.visit p c]) = offers d ls := by
    intro d hd
    exact offers_other (by simp [offered, Ne.symm hd])
  have hmem : ∀ q d, q ∈ offers d (ls ++ [.visit p c]) → q ∈ offers d ls ∨ q = p ∧ d = c := by
    intro q d hq
    by_cases hd : d = c
    · subst hd
      rw [offers_visit, List.mem_append, List.mem_singleton] at hq
      exact hq.imp_right fun he => ⟨he, rfl⟩
    · exact .inl (hother d hd ▸ hq)
  have hpublished : ∀ {q : ℕ} {e : E}, Label.publish q e ∈ ls ++ [.visit p c] → Label.publish q e ∈ ls := by
    intro q e hq
    simpa using hq
  refine ⟨fun q hq => ?_, fun q e rest hq => ?_, fun q e e' he he' =>
    hrec.named q e e' (hpublished he) (hpublished he'), fun d => ?_, fun d => ?_, fun d => ?_⟩
  · by_cases hqp : q = p
    · subst hqp
      simp only [Hub.setPublisher, Function.update_self] at hq
      cases hq
    · simp only [Hub.setPublisher, Function.update_of_ne hqp] at hq
      refine ⟨fun d hd => ?_, fun e he => (hrec.idle q hq).2 e (hpublished he)⟩
      exact (hmem q d hd).elim ((hrec.idle q hq).1 d) fun hand => hqp hand.1
  · by_cases hqp : q = p
    · subst hqp
      simp only [Hub.setPublisher, Function.update_self, Publisher.visiting.injEq] at hq
      obtain ⟨rfl, rfl⟩ := hq
      refine ⟨List.mem_append_left _ hpublish, fun d hd => Finset.mem_insert.mpr ?_⟩
      exact (hmem q d hd).symm.imp And.right (hvisited d)
    · simp only [Hub.setPublisher, Function.update_of_ne hqp] at hq
      obtain ⟨hold, hrest⟩ := hrec.visiting q e rest hq
      refine ⟨List.mem_append_left _ hold, fun d hd => ?_⟩
      exact (hmem q d hd).elim (hrest d) fun hand => absurd hand.1 hqp
  · by_cases hd : d = c
    · subst hd
      rw [offers_visit]
      exact List.nodup_append'.mpr ⟨hrec.once d, List.nodup_singleton p, by simpa using fun hd => hc (hvisited d hd)⟩
    · rw [hother d hd]
      exact hrec.once d
  · refine channels_update (P := fun x => (x.items.map Prod.fst).Sublist (offers d (ls ++ [.visit p c])))
      (fun hd => ?_) fun hd => ?_
    · subst hd
      rw [offers_visit]
      rcases items_offer (h.channels d) (p, event) with hsame | hmore
      · rw [hsame]
        exact (hrec.items d).trans (List.sublist_append_left _ _)
      · rw [hmore, List.map_append]
        exact (hrec.items d).append (List.Sublist.refl _)
    · rw [hother d hd]
      exact hrec.items d
  · refine channels_update (P := fun x => ∀ y ∈ x.items, .publish y.1 y.2 ∈ ls ++ [.visit p c])
      (fun hd => ?_) fun _ y hy => List.mem_append_left _ (hrec.source d y hy)
    intro y hy
    subst hd
    refine List.mem_append_left _ ?_
    rcases items_offer (h.channels d) (p, event) with hsame | hmore
    · rw [hsame] at hy
      exact hrec.source d y hy
    · rw [hmore] at hy
      rcases List.mem_append.mp hy with hy | hy
      · exact hrec.source d y hy
      · rw [List.mem_singleton.mp hy]
        exact hpublish

theorem items_receive {x : Channel E} {item : ℕ × E} {waiting : List (ℕ × E)}
    (h : x.waiting = item :: waiting) :
    Channel.items { x with waiting := waiting, received := x.received ++ [item] } = x.items := by
  rw [Channel.items, Channel.items, h, List.append_assoc, List.singleton_append]

theorem Effect.recorded {ls : List (Label E)} {h h' : Hub E} {l : Label E} (he : Effect h l h')
    (hrec : Recorded ls h) : Recorded (ls ++ [l]) h' := by
  cases he with
  | @subscribe c =>
    refine hrec.quiet (fun _ => rfl) (fun _ _ h => by cases h) (fun _ hp => hp) (fun _ _ _ hp => hp)
      fun d => ?_
    exact channels_update (P := fun x => x.items = (h.channels d).items ∨ x.items = [])
      (fun _ => .inr rfl) fun _ => .inl rfl
  | @unsubscribe c =>
    unfold Hub.unsubscribe
    split
    · refine hrec.quiet (fun _ => rfl) (fun _ _ h => by cases h) (fun _ hp => hp) (fun _ _ _ hp => hp)
        fun d => .inl ?_
      refine channels_update (P := fun x => x.items = (h.channels d).items) (fun hd => ?_) fun _ => rfl
      rw [hd]
      rfl
    · exact hrec.quiet (fun _ => rfl) (fun _ _ h => by cases h) (fun _ hp => hp) (fun _ _ _ hp => hp)
        fun _ => .inl rfl
  | @publish p event hidle => exact hrec.publish event hidle
  | visit hvisiting _ hnew => exact hrec.visit hvisiting hnew
  | @finish p event visited hvisiting hall =>
    refine hrec.quiet (fun _ => rfl) (fun _ _ h => by cases h) (fun q hq => ?_) (fun q e rest hq => ?_)
      fun _ => .inl rfl
    all_goals
      by_cases hqp : q = p
      · subst hqp
        simp only [Hub.setPublisher, Function.update_self] at hq
        cases hq
      · simpa only [Hub.setPublisher, Function.update_of_ne hqp] using hq
  | @receive c item waiting hwaiting =>
    refine hrec.quiet (fun _ => rfl) (fun _ _ h => by cases h) (fun _ hp => hp) (fun _ _ _ hp => hp)
      fun d => .inl ?_
    refine channels_update (P := fun x => x.items = (h.channels d).items) (fun hd => ?_) fun _ => rfl
    rw [hd]
    exact items_receive hwaiting

theorem recorded_of_runs {h : Hub E} {ls : List (Label E)} (hr : Runs (Fires step) start ls h) :
    Recorded ls h := by
  induction hr with
  | refl => exact start_recorded
  | tail _ last ih => exact (effect_of_step last).recorded ih

/-- What a call of `publish` that began with some subscribers has done, and what it has left to do:
while it runs nobody subscribes and nobody leaves. -/
def Covers (events : Finset ℕ) (p : ℕ) (ms : List (Label E)) (h : Hub E) : Prop :=
  match h.publishers p with
  | .idle => False
  | .visiting _ visited => h.events = events ∧ visited ⊆ events ∧ ∀ c, c ∈ visited ↔ p ∈ offers c ms
  | .done => ∀ c, c ∈ events ↔ p ∈ offers c ms

theorem mem_offers_concat {ms : List (Label E)} {l : Label E} {p c : ℕ} :
    p ∈ offers c (ms ++ [l]) ↔ p ∈ offers c ms ∨ offered c l = some p := by
  simp [offers, List.filterMap_append, eq_comm]

theorem Covers.other {events : Finset ℕ} {p : ℕ} {ms : List (Label E)} {h h' : Hub E} {l : Label E}
    (hcovers : Covers events p ms h) (hl : ∀ c, offered c l ≠ some p)
    (hsame : h'.publishers p = h.publishers p)
    (hevents : ∀ event visited, h.publishers p = .visiting event visited → h'.events = h.events) :
    Covers events p (ms ++ [l]) h' := by
  have hoffers : ∀ c, p ∈ offers c (ms ++ [l]) ↔ p ∈ offers c ms := by
    intro c
    rw [mem_offers_concat, or_iff_left (hl c)]
  unfold Covers at hcovers ⊢
  rw [hsame]
  cases hp : h.publishers p with
  | idle =>
    rw [hp] at hcovers
    exact hcovers
  | visiting event visited =>
    rw [hp] at hcovers
    exact ⟨(hevents event visited hp).trans hcovers.1, hcovers.2.1,
      fun c => (hcovers.2.2 c).trans (hoffers c).symm⟩
  | done =>
    rw [hp] at hcovers
    exact fun c => (hcovers c).trans (hoffers c).symm

theorem Effect.covers {events : Finset ℕ} {p : ℕ} {ms : List (Label E)} {h h' : Hub E} {l : Label E}
    (he : Effect h l h') (ho : Orderly h) (hcovers : Covers events p ms h) :
    Covers events p (ms ++ [l]) h' := by
  have hnobody : h.readers = ∅ → ∀ event visited, h.publishers p ≠ .visiting event visited := by
    intro hfree event visited hp
    exact absurd (hfree ▸ ho.reading p event visited hp) (Finset.notMem_empty _)
  cases he with
  | subscribe hfree =>
    exact hcovers.other (fun _ => by simp [offered]) rfl fun event visited hp =>
      absurd hp (hnobody hfree event visited)
  | @unsubscribe c hfree =>
    refine hcovers.other (fun _ => by simp [offered]) ?_ fun event visited hp =>
      absurd hp (hnobody hfree event visited)
    unfold Hub.unsubscribe
    split <;> rfl
  | @publish q event hidle =>
    have hqp : p ≠ q := by
      rintro rfl
      unfold Covers at hcovers
      rw [hidle] at hcovers
      exact hcovers
    exact hcovers.other (fun _ => by simp [offered]) (Function.update_of_ne hqp ..) fun _ _ _ => rfl
  | @visit q c event visited hvisiting hc hnew =>
    by_cases hqp : p = q
    · subst hqp
      unfold Covers at hcovers ⊢
      rw [hvisiting] at hcovers
      obtain ⟨hevents, hsubset, hall⟩ := hcovers
      simp only [Hub.setPublisher, Function.update_self]
      refine ⟨hevents, Finset.insert_subset (hevents ▸ hc) hsubset, fun d => ?_⟩
      rw [Finset.mem_insert, hall d, mem_offers_concat, or_comm]
      simp [offered, eq_comm]
    · exact hcovers.other (fun d => by simp [offered, Ne.symm hqp]) (Function.update_of_ne hqp ..)
        fun _ _ _ => rfl
  | @finish q event visited hvisiting hall =>
    by_cases hqp : p = q
    · subst hqp
      unfold Covers at hcovers ⊢
      rw [hvisiting] at hcovers
      obtain ⟨hevents, hsubset, hvisited⟩ := hcovers
      simp only [Hub.setPublisher, Function.update_self]
      intro d
      rw [mem_offers_concat, ← hvisited d]
      simp only [offered, reduceCtorEq, or_false]
      exact ⟨fun hd => hall (hevents ▸ hd), fun hd => hsubset hd⟩
    · exact hcovers.other (fun _ => by simp [offered]) (Function.update_of_ne hqp ..) fun _ _ _ => rfl
  | receive => exact hcovers.other (fun _ => by simp [offered]) rfl fun _ _ _ => rfl

/-- A call of `publish` that has returned has offered its event, and no other, once to each channel
that was subscribed when it began, and to no other channel. -/
theorem offered_once {h₁ h₂ h₃ : Hub E} {ls ms : List (Label E)} {p : ℕ} {event : E}
    (hr₁ : Runs (Fires step) start ls h₁) (hp : Fires step h₁ (.publish p event) h₂)
    (hr₂ : Runs (Fires step) h₂ ms h₃) (hdone : h₃.publishers p = .done) (c : ℕ) :
    (offers c (ls ++ [.publish p event] ++ ms)).count p = (if c ∈ h₁.events then 1 else 0) ∧
      ∀ x ∈ (h₃.channels c).items, x.1 = p → x.2 = event := by
  have hcovers : Orderly h₃ ∧ Covers h₁.events p ms h₃ := by
    clear hdone
    induction hr₂ with
    | refl =>
      refine ⟨orderly_of_runs (hr₁.tail hp), ?_⟩
      cases effect_of_step hp
      unfold Covers
      simp only [Hub.setPublisher, Function.update_self]
      exact ⟨trivial, Finset.empty_subset _, fun c => by simp [offers]⟩
    | tail _ last ih =>
      have he := effect_of_step last
      exact ⟨he.orderly ih.1, he.covers ih.1 ih.2⟩
  have hidle : h₁.publishers p = .idle := by
    cases effect_of_step hp
    assumption
  have hall := hcovers.2
  unfold Covers at hall
  rw [hdone] at hall
  have hrec := recorded_of_runs ((hr₁.tail hp).trans hr₂)
  have hbefore : p ∉ offers c ls := ((recorded_of_runs hr₁).idle p hidle).1 c
  have hsplit : offers c (ls ++ [.publish p event] ++ ms) = offers c ls ++ offers c ms := by
    rw [offers, List.filterMap_append, List.filterMap_append]
    simp [offers, offered]
  have hmem : p ∈ offers c (ls ++ [.publish p event] ++ ms) ↔ c ∈ h₁.events := by
    rw [hsplit, List.mem_append, or_iff_right hbefore]
    exact (hall c).symm
  refine ⟨?_, fun x hx he => ?_⟩
  · split
    · exact List.count_eq_one_of_mem (hrec.once c) (hmem.mpr ‹_›)
    · exact List.count_eq_zero.mpr fun hin => ‹c ∉ h₁.events› (hmem.mp hin)
  · subst he
    exact hrec.named x.1 x.2 event (hrec.source c x hx) (by simp)

theorem offered_once_oneEvent : ∃ h₁ h₂ h₃ : Hub ℕ, Runs (Fires step) start [.subscribe 0] h₁ ∧
    Fires step h₁ (.publish 5 7) h₂ ∧ Runs (Fires step) h₂ [.visit 5 0, .finish 5] h₃ ∧
    (offers 0 ([.subscribe 0] ++ [.publish 5 7] ++ [.visit 5 0, .finish 5])).count 5 =
      (if 0 ∈ h₁.events then 1 else 0) ∧ ∀ x ∈ (h₃.channels 0).items, x.1 = 5 → x.2 = 7 := by
  obtain ⟨h₃, hr, hdone⟩ : ∃ h₃ : Hub ℕ, Runs (Fires step) start
      ([.subscribe 0] ++ ([.publish 5 7] ++ [.visit 5 0, .finish 5])) h₃ ∧ h₃.publishers 5 = .done :=
    ⟨_, exec_runs rfl, rfl⟩
  obtain ⟨h₁, hr₁, hrest⟩ := hr.of_append
  obtain ⟨h₂, hpublish, hr₂⟩ := hrest.of_append
  have hp : Fires step h₁ (.publish 5 7) h₂ := by
    simpa [exec, Fires] using exec_of_runs hpublish
  exact ⟨h₁, h₂, h₃, hr₁, hp, hr₂, offered_once hr₁ hp hr₂ hdone 0⟩

theorem Effect.fits {h h' : Hub E} {l : Label E} (he : Effect h l h')
    (hfits : ∀ c, (h.channels c).waiting.length ≤ capacity) (c : ℕ) :
    (h'.channels c).waiting.length ≤ capacity := by
  have hc := hfits c
  cases he with
  | subscribe =>
    exact channels_update (P := fun x => x.waiting.length ≤ capacity) (fun _ => Nat.zero_le _) fun _ => hc
  | @unsubscribe d =>
    unfold Hub.unsubscribe
    split
    · exact channels_update (P := fun x => x.waiting.length ≤ capacity) (fun hd => hd ▸ hc) fun _ => hc
    · exact hc
  | publish => exact hc
  | @visit p d event =>
    refine channels_update (P := fun x => x.waiting.length ≤ capacity) (fun hd => ?_) fun _ => hc
    unfold Channel.offer
    split
    · rw [List.length_append, List.length_singleton]
      omega
    · exact hd ▸ hc
  | finish => exact hc
  | receive hwaiting =>
    refine channels_update (P := fun x => x.waiting.length ≤ capacity) (fun hd => ?_) fun _ => hc
    rw [hd, hwaiting, List.length_cons] at hc
    exact Nat.le_of_succ_le hc

theorem fits_of_runs {h : Hub E} {ls : List (Label E)} (hr : Runs (Fires step) start ls h) (c : ℕ) :
    (h.channels c).waiting.length ≤ capacity :=
  hr.invariant (I := fun h => ∀ c, (h.channels c).waiting.length ≤ capacity)
    (fun _ => Nat.zero_le _) (fun _ _ _ hf hs => (effect_of_step hs).fits hf) c

/-- What a channel has been given stays with it or with its receiver. -/
def Holds (c : ℕ) (item : ℕ × E) (h : Hub E) : Prop :=
  (h.channels c).made = true ∧ item ∈ (h.channels c).items

theorem Effect.holds {c : ℕ} {item : ℕ × E} {h h' : Hub E} {l : Label E} (he : Effect h l h')
    (hc : Holds c item h) : Holds c item h' := by
  obtain ⟨hmade, hitem⟩ := hc
  cases he with
  | @subscribe d _ hnew =>
    refine channels_update (P := fun x => x.made = true ∧ item ∈ x.items) (fun hd => ?_)
      fun _ => ⟨hmade, hitem⟩
    rw [hd, hnew] at hmade
    cases hmade
  | @unsubscribe d =>
    unfold Hub.unsubscribe
    split
    · exact channels_update (P := fun x => x.made = true ∧ item ∈ x.items)
        (fun hd => hd ▸ ⟨hmade, hitem⟩) fun _ => ⟨hmade, hitem⟩
    · exact ⟨hmade, hitem⟩
  | publish => exact ⟨hmade, hitem⟩
  | @visit p d event =>
    refine channels_update (P := fun x => x.made = true ∧ item ∈ x.items) (fun hd => ?_)
      fun _ => ⟨hmade, hitem⟩
    subst hd
    refine ⟨(offer_made _ _).trans hmade, ?_⟩
    rcases items_offer (h.channels c) (p, event) with hsame | hmore
    · rwa [hsame]
    · rw [hmore]
      exact List.mem_append_left _ hitem
  | finish => exact ⟨hmade, hitem⟩
  | receive hwaiting =>
    refine channels_update (P := fun x => x.made = true ∧ item ∈ x.items) (fun hd => ?_)
      fun _ => ⟨hmade, hitem⟩
    subst hd
    exact ⟨hmade, by rwa [items_receive hwaiting]⟩

/-- An event that a channel was offered is given to its receiver or waits for it, unless the channel
was full. -/
theorem kept_or_full {h₁ h₂ h₃ : Hub E} {ls ms : List (Label E)} {p c : ℕ}
    (hr₁ : Runs (Fires step) start ls h₁) (hvisit : Fires step h₁ (.visit p c) h₂)
    (hr₂ : Runs (Fires step) h₂ ms h₃) :
    (∃ event, Label.publish p event ∈ ls ∧ (p, event) ∈ (h₃.channels c).items) ∨
      (h₁.channels c).waiting.length = capacity := by
  have ho := orderly_of_runs hr₁
  have hfits := fits_of_runs hr₁ c
  cases effect_of_step hvisit with
  | @visit _ _ event visited hvisiting hc hnew =>
    by_cases hroom : (h₁.channels c).waiting.length < capacity
    · left
      refine ⟨event, ((recorded_of_runs hr₁).visiting p event visited hvisiting).1, ?_⟩
      refine (hr₂.invariant (I := Holds c (p, event)) ?_ fun _ _ _ hh hs => (effect_of_step hs).holds hh).2
      have hmade := (ho.subscribed c hc).1
      refine channels_update (P := fun x => x.made = true ∧ (p, event) ∈ x.items) (fun _ => ?_)
        fun hne => absurd rfl hne
      refine ⟨(offer_made _ _).trans hmade, ?_⟩
      rw [Channel.offer, if_pos hroom, Channel.items]
      simp
    · exact .inr (by omega)

theorem kept_or_full_oneEvent : ∃ h₁ h₂ h₃ : Hub ℕ,
    Runs (Fires step) start [.subscribe 0, .publish 5 7] h₁ ∧ Fires step h₁ (.visit 5 0) h₂ ∧
    Runs (Fires step) h₂ [.finish 5, .receive 0] h₃ ∧
    ((∃ event, Label.publish 5 event ∈ ([.subscribe 0, .publish 5 7] : List (Label ℕ)) ∧
      (5, event) ∈ (h₃.channels 0).items) ∨ (h₁.channels 0).waiting.length = capacity) := by
  obtain ⟨h₃, hr, -⟩ : ∃ h₃ : Hub ℕ, Runs (Fires step) start
      ([.subscribe 0, .publish 5 7] ++ ([.visit 5 0] ++ [.finish 5, .receive 0])) h₃ ∧
      h₃.publishers 5 = .done := ⟨_, exec_runs rfl, rfl⟩
  obtain ⟨h₁, hr₁, hrest⟩ := hr.of_append
  obtain ⟨h₂, hsingle, hr₂⟩ := hrest.of_append
  have hvisit : Fires step h₁ (.visit 5 0) h₂ := by
    simpa [exec, Fires] using exec_of_runs hsingle
  exact ⟨h₁, h₂, h₃, hr₁, hvisit, hr₂, kept_or_full hr₁ hvisit hr₂⟩

/-! ## Down to the menu -/

/-- `Event`; the fields after the first are left out when they are empty. -/
structure Event where
  type : GoText.GoString
  accountID : GoText.GoString
  message : GoText.GoString
  data : Option JsonText.Json

def Event.json (e : Event) : JsonText.Json :=
  .object ([(GoText.lit "type", .string e.type)] ++
    (if e.accountID = [] then [] else [(GoText.lit "accountId", .string e.accountID)]) ++
    (if e.message = [] then [] else [(GoText.lit "message", .string e.message)]) ++
    e.data.toList.map fun data => (GoText.lit "data", data))

theorem wellNumbered_json {e : Event} (h : ∀ data ∈ e.data, JsonRoundTrip.wellNumbered data = true) :
    JsonRoundTrip.wellNumbered e.json = true := by
  refine JsonRoundTrip.wellNumberedMembers_iff.mpr fun m hm => ?_
  simp only [List.mem_append, List.mem_singleton, List.mem_map, Option.mem_toList] at hm
  rcases hm with ((rfl | hm) | hm) | ⟨data, hdata, rfl⟩
  · rfl
  · split at hm
    · cases hm
    · rw [List.mem_singleton.mp hm]
      rfl
  · split at hm
    · cases hm
    · rw [List.mem_singleton.mp hm]
      rfl
  · exact h data hdata

def Event.encoded (x : ℕ × Event) : GoText.GoString := JsonText.marshal x.2.json

def Sized (ls : List (Label Event)) : Prop := ∀ p e, Label.publish p e ∈ ls →
  (∀ data ∈ e.data, JsonRoundTrip.wellNumbered data = true) ∧
    (JsonText.marshal e.json).length + 6 ≤ EventStream.maxEventBytes

/-- The menu hears some of the events that were published, each at most once and in the order in
which its channel was offered them. -/
theorem menu_hears {h : Hub Event} {ls : List (Label Event)} {c : ℕ} {chunks : List (List UInt8)}
    (hr : Runs (Fires step) start ls h) (hsized : Sized ls)
    (hchunks : chunks.flatten <+: EventDelivery.written ((h.channels c).received.map Event.encoded)) :
    ∃ heard : List (ℕ × Event), heard <+: (h.channels c).received ∧
      (heard.map Prod.fst).Sublist (offers c ls) ∧ (offers c ls).Nodup ∧
      (∀ x ∈ heard, Label.publish x.1 x.2 ∈ ls) ∧
      ∃ texts : List EventStream.Text, texts.map TextDecoder.encode = heard.map Event.encoded ∧
        EventStream.codexMuxReadEventStream chunks = .ok (texts.map EventDelivery.message) := by
  have hrec := recorded_of_runs hr
  have hreceived : ∀ x ∈ (h.channels c).received, Label.publish x.1 x.2 ∈ ls :=
    fun x hx => hrec.source c x (List.mem_append_left _ hx)
  have hnumbers : ∀ v ∈ (h.channels c).received.map fun x => x.2.json,
      JsonRoundTrip.wellNumbered v = true := by
    intro v hv
    obtain ⟨x, hx, rfl⟩ := List.mem_map.mp hv
    exact wellNumbered_json (hsized _ _ (hreceived x hx)).1
  have hshort : ∀ v ∈ (h.channels c).received.map fun x => x.2.json,
      (JsonText.marshal v).length + 6 ≤ EventStream.maxEventBytes := by
    intro v hv
    obtain ⟨x, hx, rfl⟩ := List.mem_map.mp hv
    exact (hsized _ _ (hreceived x hx)).2
  have hencoded : ∀ xs : List (ℕ × Event),
      (xs.map fun x => x.2.json).map JsonText.marshal = xs.map Event.encoded := by
    intro xs
    rw [List.map_map]
    rfl
  obtain ⟨texts, htexts, hsend⟩ := EventDelivery.exists_texts hnumbers hshort
  rw [← hencoded, ← htexts] at hchunks
  obtain ⟨i, -, -, -, hread⟩ := EventDelivery.read_written hsend hchunks
  have hpart := List.take_prefix ((i - 2) / 2) (h.channels c).received
  refine ⟨(h.channels c).received.take ((i - 2) / 2), hpart, ?_, hrec.once c,
    fun x hx => hreceived x (List.mem_of_mem_take hx), texts.take ((i - 2) / 2), ?_, hread⟩
  · refine List.Sublist.trans ?_ (hrec.items c)
    exact (hpart.sublist.trans (List.sublist_append_left _ _)).map _
  · rw [List.map_take, htexts, hencoded, List.map_take]

def restarted : Event := ⟨GoText.lit "account-restarted", GoText.lit "a", GoText.lit "ok", none⟩

theorem menu_hears_restarted : ∃ h : Hub Event, Runs (Fires step) start (oneEvent restarted) h ∧
    ∃ heard : List (ℕ × Event), heard <+: (h.channels 0).received ∧
      (heard.map Prod.fst).Sublist (offers 0 (oneEvent restarted)) ∧
      (offers 0 (oneEvent restarted)).Nodup ∧
      (∀ x ∈ heard, Label.publish x.1 x.2 ∈ oneEvent restarted) ∧
      ∃ texts : List EventStream.Text, texts.map TextDecoder.encode = heard.map Event.encoded ∧
        EventStream.codexMuxReadEventStream
          [EventDelivery.written [], EventDelivery.frame (Event.encoded (5, restarted))] =
          .ok (texts.map EventDelivery.message) := by
  obtain ⟨h, hr, hreceived⟩ := oneEvent_run restarted
  have hsized : Sized (oneEvent restarted) := by
    intro p e he
    simp only [oneEvent, List.mem_cons, reduceCtorEq, List.not_mem_nil, or_false, false_or,
      Label.publish.injEq] at he
    obtain ⟨-, rfl⟩ := he
    refine ⟨fun _ hdata => ?_, by decide⟩
    cases hdata
  refine ⟨h, hr, menu_hears hr hsized ?_⟩
  rw [hreceived]
  exact ⟨[], by simp [EventDelivery.written]⟩

end SubscriptionRouter.EventHub
