import LetWhile.Proofs.Checking
import LetWhile.Scope.Arena

/-!
# An arena scopes its names lexically

An arena keeps the frames of all scopes in one list, and a frame names the one around it by its
place there. Nothing in the type of an arena says that these places make sense: a frame could name
itself, or one that was never added. It is the requests that keep them in order. A frame is added
inside one that has a handle already, so the frame around another one is always the older of the
two, and no request takes a frame away or moves it.

So whoever follows the places outwards comes to an end. The frames on the way are the `Chain` of a
handle, and a lookup is a search along it. A name that is defined in a frame is then seen from
exactly those handles that meet this frame on their chain before any other one that binds the name.

The frames of a chain are a scope, as the checker has it, and whoever uses the handle uses that
scope (`InUse.handles_stand_for_scopes`).
-/

namespace LetWhile.Arena

variable {a a' : Arena} {f h k p : Nat} {x y : String} {τ : Ty} {chain : List Nat}

/-! ## What a request does to the frames -/

theorem length_add (a : Arena) (parent : Option Nat) :
    (a.add parent).1.frames.length = a.frames.length + 1 := by
  simp [add]

theorem parent?_add_of_lt (parent : Option Nat) (hh : h < a.frames.length) :
    (a.add parent).1.parent? h = a.parent? h := by
  simp only [add, parent?, List.getElem?_append_left hh]

theorem frame_add_of_lt (parent : Option Nat) (hh : h < a.frames.length) :
    (a.add parent).1.frame h = a.frame h := by
  simp only [add, frame, List.getElem?_append_left hh]

theorem parent?_add_length (a : Arena) (parent : Option Nat) :
    (a.add parent).1.parent? a.frames.length = parent := by
  simp [add, parent?]

theorem frame_add_length (a : Arena) (parent : Option Nat) :
    (a.add parent).1.frame a.frames.length = {} := by
  simp [add, frame]

theorem lt_of_parent? (hp : a.parent? h = some p) : h < a.frames.length := by
  rcases Nat.lt_or_ge h a.frames.length with hlt | hge
  · exact hlt
  · rw [parent?, List.getElem?_eq_none hge] at hp
    cases hp

/-- A name is bound exactly when its frame does not bind it yet. -/
theorem define_eq_ok_iff :
    a.define f x τ = .ok a' ↔ (a.frame f).find? x = none ∧
      a' = { frames := a.frames.modify f fun af =>
        { af with frame := { bindings := (a.frame f).bindings ++ [(x, τ)] } } } := by
  unfold define Frame.define
  cases (a.frame f).find? x with
  | some _ => simp
  | none => simp [eq_comm]

theorem define_eq_error_iff {e : ScopeError} :
    a.define f x τ = .error e ↔ (a.frame f).find? x ≠ none ∧ e = .alreadyDefined x := by
  unfold define Frame.define
  cases (a.frame f).find? x with
  | some _ => simp [eq_comm]
  | none => simp

theorem length_define (hd : a.define f x τ = .ok a') : a'.frames.length = a.frames.length := by
  obtain ⟨-, rfl⟩ := define_eq_ok_iff.mp hd
  exact List.length_modify _ _ _

/-- A definition leaves the places of all frames alone. -/
theorem parent?_define (hd : a.define f x τ = .ok a') (h : Nat) : a'.parent? h = a.parent? h := by
  obtain ⟨-, rfl⟩ := define_eq_ok_iff.mp hd
  by_cases hf : f = h
  · simp only [parent?, List.getElem?_modify, if_pos hf]
    cases a.frames[h]? <;> rfl
  · simp [parent?, hf]

theorem frame_define_self (hf : f < a.frames.length) (hd : a.define f x τ = .ok a') :
    a'.frame f = { bindings := (a.frame f).bindings ++ [(x, τ)] } := by
  obtain ⟨-, rfl⟩ := define_eq_ok_iff.mp hd
  simp [frame, List.getElem?_eq_getElem hf]

theorem frame_define_of_ne (hne : h ≠ f) (hd : a.define f x τ = .ok a') :
    a'.frame h = a.frame h := by
  obtain ⟨-, rfl⟩ := define_eq_ok_iff.mp hd
  simp [frame, Ne.symm hne]

/-- **A definition adds one binding to one frame.** -/
theorem find?_frame_define (hf : f < a.frames.length) (hd : a.define f x τ = .ok a') (h : Nat)
    (y : String) :
    (a'.frame h).find? y = if h = f ∧ y = x then some τ else (a.frame h).find? y := by
  by_cases hh : h = f
  · subst hh
    have hx : (a.frame h).bindings.lookup x = none := (define_eq_ok_iff.mp hd).1
    rw [frame_define_self hf hd, Frame.find?, Typing.lookup_snoc hx]
    simp [Frame.find?]
  · rw [frame_define_of_ne hh hd, if_neg fun hc => hh hc.1]

/-! ## The way outwards -/

/-- Every frame stands behind the one around it. -/
def Ordered (a : Arena) : Prop := ∀ h p, a.parent? h = some p → p < h

/-- The frames from a handle outwards: its own, the one around it, and so on up to one with none
around it. -/
inductive Chain (a : Arena) : Nat → List Nat → Prop where
  | outermost {h : Nat} (hp : a.parent? h = none) : Chain a h [h]
  | inside {h p : Nat} {outer : List Nat} (hp : a.parent? h = some p) (ho : Chain a p outer) :
      Chain a h (h :: outer)

/-- Going outwards comes to an end. -/
theorem Ordered.exists_chain (ha : a.Ordered) (h : Nat) : ∃ chain, a.Chain h chain := by
  induction h using Nat.strongRecOn with
  | ind h ih =>
    cases hp : a.parent? h with
    | none => exact ⟨[h], .outermost hp⟩
    | some p =>
        obtain ⟨outer, ho⟩ := ih p (ha h p hp)
        exact ⟨h :: outer, .inside hp ho⟩

/-- There is only one way. -/
theorem Chain.unique {chain' : List Nat} (hc : a.Chain h chain) (hc' : a.Chain h chain') :
    chain = chain' := by
  induction hc generalizing chain' with
  | outermost hp =>
      cases hc' with
      | outermost _ => rfl
      | inside hp' _ => rw [hp] at hp'; cases hp'
  | inside hp _ ih =>
      cases hc' with
      | outermost hp' => rw [hp] at hp'; cases hp'
      | inside hp' ho =>
          rw [hp] at hp'
          cases hp'
          rw [ih ho]

theorem Chain.define (hc : a.Chain h chain) (hd : a.define f x τ = .ok a') : a'.Chain h chain := by
  induction hc with
  | outermost hp => exact .outermost ((parent?_define hd _).trans hp)
  | inside hp _ ih => exact .inside ((parent?_define hd _).trans hp) ih

/-- **A lookup searches the chain of its handle.** The bound in the definition of the search never
cuts it short. -/
theorem Chain.find?_eq (ha : a.Ordered) (hc : a.Chain h chain) (x : String) :
    a.find? h x = chain.findSome? fun k => (a.frame k).find? x := by
  induction hc with
  | @outermost h hp =>
      rw [find?, hp, List.findSome?_cons, List.findSome?_nil]
      cases (a.frame h).find? x <;> rfl
  | @inside h p outer hp _ ih =>
      rw [find?, hp, List.findSome?_cons, ← ih]
      cases (a.frame h).find? x with
      | some τ => rfl
      | none => exact dif_pos (ha h p hp)

/-- On the way `chain` outwards, the frame `k` is met before any other one that binds `x`. -/
def Visible (a : Arena) (chain : List Nat) (k : Nat) (x : String) : Prop :=
  ∃ near far, chain = near ++ k :: far ∧ ∀ i ∈ near, (a.frame i).find? x = none

/-- A lookup gives the binding of the nearest frame that has one. -/
theorem Chain.lookup_eq_ok_iff (ha : a.Ordered) (hc : a.Chain h chain) :
    a.lookup h x = .ok τ ↔ ∃ k, a.Visible chain k x ∧ (a.frame k).find? x = some τ := by
  have hfind : a.lookup h x = .ok τ ↔
      chain.findSome? (fun k => (a.frame k).find? x) = some τ := by
    rw [lookup, hc.find?_eq ha]
    cases chain.findSome? fun k => (a.frame k).find? x <;> simp
  rw [hfind, List.findSome?_eq_some_iff]
  constructor
  · rintro ⟨near, k, far, hsplit, hk, hnear⟩
    exact ⟨k, ⟨near, far, hsplit, hnear⟩, hk⟩
  · rintro ⟨k, ⟨near, far, hsplit, hnear⟩, hk⟩
    exact ⟨near, k, far, hsplit, hk, hnear⟩

/-- A lookup fails exactly when no frame on the way binds the name. -/
theorem Chain.lookup_eq_error_iff (ha : a.Ordered) (hc : a.Chain h chain) {e : ScopeError} :
    a.lookup h x = .error e ↔
      e = .notDefined x ∧ ∀ k ∈ chain, (a.frame k).find? x = none := by
  rw [← List.findSome?_eq_none_iff, lookup, hc.find?_eq ha]
  cases chain.findSome? fun k => (a.frame k).find? x <;> simp [eq_comm]

theorem not_visible_nil : ¬ a.Visible [] f x := by
  rintro ⟨near, far, hsplit, -⟩
  cases near <;> cases hsplit

theorem visible_cons {ks : List Nat} :
    a.Visible (k :: ks) f x ↔ k = f ∨ (a.frame k).find? x = none ∧ a.Visible ks f x := by
  constructor
  · rintro ⟨near, far, hsplit, hnear⟩
    cases near with
    | nil => cases hsplit; exact .inl rfl
    | cons i near =>
        cases hsplit
        exact .inr ⟨hnear k List.mem_cons_self, near, far, rfl,
          fun i hi => hnear i (List.mem_cons_of_mem _ hi)⟩
  · rintro (rfl | ⟨hk, near, far, rfl, hnear⟩)
    · exact ⟨[], ks, rfl, fun i hi => absurd hi List.not_mem_nil⟩
    · refine ⟨k :: near, far, rfl, fun i hi => ?_⟩
      rcases List.mem_cons.mp hi with rfl | hi
      · exact hk
      · exact hnear i hi

/-! ## What a definition changes -/

section Define

variable (hf : f < a.frames.length) (hd : a.define f x τ = .ok a')
include hf hd

/-- A search that meets the frame of a definition first finds what was defined. -/
theorem findSome?_define_of_visible (hv : a.Visible chain f x) :
    chain.findSome? (fun k => (a'.frame k).find? x) = some τ := by
  induction chain with
  | nil => exact absurd hv not_visible_nil
  | cons k ks ih =>
      rw [List.findSome?_cons, find?_frame_define hf hd]
      by_cases hk : k = f
      · rw [if_pos ⟨hk, rfl⟩]
      · rw [if_neg fun hc => hk hc.1]
        rcases visible_cons.mp hv with hk' | ⟨hnone, hv⟩
        · exact absurd hk' hk
        · rw [hnone]
          exact ih hv

/-- Any other search finds what it found before. -/
theorem findSome?_define_of_not_visible (hv : ¬ (y = x ∧ a.Visible chain f x)) :
    chain.findSome? (fun k => (a'.frame k).find? y) =
      chain.findSome? fun k => (a.frame k).find? y := by
  induction chain with
  | nil => rfl
  | cons k ks ih =>
      have hk : ¬ (k = f ∧ y = x) := fun hc => hv ⟨hc.2, visible_cons.mpr (.inl hc.1)⟩
      rw [List.findSome?_cons, List.findSome?_cons, find?_frame_define hf hd, if_neg hk]
      cases hfind : (a.frame k).find? y with
      | some σ => rfl
      | none =>
          refine ih fun hc => hv ⟨hc.1, visible_cons.mpr (.inr ⟨?_, hc.2⟩)⟩
          rw [← hc.1]
          exact hfind

/-- **Who sees a definition.** From a handle whose chain meets the frame before any other one that
binds the name, the name is what was defined. Everything else is as it was. -/
theorem Chain.lookup_define (ha : a.Ordered) (hc : a.Chain h chain) (y : String) :
    (y = x ∧ a.Visible chain f x → a'.lookup h y = .ok τ) ∧
      (¬ (y = x ∧ a.Visible chain f x) → a'.lookup h y = a.lookup h y) := by
  have ha' : a'.Ordered := fun h p hp => ha h p ((parent?_define hd h).symm.trans hp)
  constructor
  · rintro ⟨rfl, hv⟩
    rw [lookup, (hc.define hd).find?_eq ha', findSome?_define_of_visible hf hd hv]
  · intro hv
    rw [lookup, lookup, (hc.define hd).find?_eq ha', hc.find?_eq ha,
      findSome?_define_of_not_visible hf hd hv]

end Define

/-! ## What a new frame changes -/

theorem Ordered.add (ha : a.Ordered) {parent : Option Nat}
    (hp : ∀ p, parent = some p → p < a.frames.length) : (a.add parent).1.Ordered := by
  intro h p hparent
  have hlt := lt_of_parent? hparent
  rw [length_add] at hlt
  rcases Nat.lt_or_eq_of_le (Nat.le_of_lt_succ hlt) with hold | rfl
  · rw [parent?_add_of_lt parent hold] at hparent
    exact ha h p hparent
  · rw [parent?_add_length] at hparent
    exact hp p hparent

theorem Chain.add (ha : a.Ordered) (hc : a.Chain h chain) (hh : h < a.frames.length)
    (parent : Option Nat) : (a.add parent).1.Chain h chain := by
  induction hc with
  | outermost hp => exact .outermost ((parent?_add_of_lt parent hh).trans hp)
  | @inside h p outer hp _ ih =>
      have hlt := ha h p hp
      exact .inside ((parent?_add_of_lt parent hh).trans hp) (ih (by omega))

theorem Chain.lt_length (ha : a.Ordered) (hc : a.Chain h chain) (hh : h < a.frames.length) :
    ∀ k ∈ chain, k < a.frames.length := by
  induction hc with
  | outermost _ =>
      intro k hk
      rwa [List.mem_singleton.mp hk]
  | @inside h p outer hp _ ih =>
      intro k hk
      have hlt := ha h p hp
      rcases List.mem_cons.mp hk with rfl | hk
      · exact hh
      · exact ih (by omega) k hk

/-- **A new frame is seen from nowhere else.** -/
theorem lookup_add (ha : a.Ordered) {parent : Option Nat}
    (hp : ∀ p, parent = some p → p < a.frames.length) (hh : h < a.frames.length) (x : String) :
    (a.add parent).1.lookup h x = a.lookup h x := by
  obtain ⟨chain, hc⟩ := ha.exists_chain h
  have hlt := hc.lt_length ha hh
  have hsame : chain.findSome? (fun k => ((a.add parent).1.frame k).find? x) =
      chain.findSome? fun k => (a.frame k).find? x := by
    clear hc
    induction chain with
    | nil => rfl
    | cons k ks ih =>
        rw [List.findSome?_cons, List.findSome?_cons,
          frame_add_of_lt parent (hlt k List.mem_cons_self),
          ih fun i hi => hlt i (List.mem_cons_of_mem k hi)]
  rw [lookup, lookup, (hc.add ha hh parent).find?_eq (ha.add hp), hc.find?_eq ha, hsame]

/-! ## The scope of a handle -/

/-- A handle stands for the scope whose frames are those on its way outwards. -/
def StandsFor (a : Arena) (h : Nat) (scope : Scope) : Prop :=
  ∃ chain, a.Chain h chain ∧ chain.map a.frame = scope.frames

section StandsFor

variable {scope : Scope}

theorem Ordered.exists_scope (ha : a.Ordered) (h : Nat) : ∃ scope, a.StandsFor h scope := by
  obtain ⟨chain, hc⟩ := ha.exists_chain h
  cases hc with
  | outermost hp => exact ⟨⟨a.frame h, []⟩, [h], .outermost hp, rfl⟩
  | @inside _ _ outer hp ho =>
      exact ⟨⟨a.frame h, outer.map a.frame⟩, h :: outer, .inside hp ho, rfl⟩

/-- A way starts at its handle, and the frames behind it are older. -/
theorem Chain.exists_outer (ha : a.Ordered) (hc : a.Chain h chain) :
    ∃ outer, chain = h :: outer ∧ ∀ k ∈ outer, k < h := by
  induction hc with
  | outermost _ => exact ⟨[], rfl, fun k hk => absurd hk List.not_mem_nil⟩
  | @inside h p outer hp _ ih =>
      refine ⟨outer, rfl, fun k hk => ?_⟩
      have hlt := ha h p hp
      obtain ⟨rest, rfl, hrest⟩ := ih
      rcases List.mem_cons.mp hk with rfl | hk
      · exact hlt
      · exact Nat.lt_trans (hrest k hk) hlt

/-- A lookup from a handle is a lookup in its scope. -/
theorem StandsFor.lookup_eq (ha : a.Ordered) (hs : a.StandsFor h scope) (x : String) :
    a.lookup h x = scope.lookup x := by
  obtain ⟨chain, hc, hframes⟩ := hs
  have hfind : a.find? h x = scope.find? x := by
    rw [hc.find?_eq ha, Scope.find?, ← hframes, List.findSome?_map]
    rfl
  cases hx : scope.find? x with
  | some τ => rw [lookup, Scope.lookup, hfind, hx]
  | none => rw [lookup, Scope.lookup, hfind, hx]

theorem standsFor_root (a : Arena) : a.root.1.StandsFor a.root.2 .empty := by
  refine ⟨[a.frames.length], .outermost (parent?_add_length a none), ?_⟩
  exact congrArg (fun f => [f]) (frame_add_length a none)

/-- A scope that is added inside another one is a nested scope. -/
theorem StandsFor.child (ha : a.Ordered) (hh : h < a.frames.length) (hs : a.StandsFor h scope) :
    (a.child h).1.StandsFor (a.child h).2 scope.nest := by
  obtain ⟨chain, hc, hframes⟩ := hs
  have hsame : chain.map (a.add (some h)).1.frame = chain.map a.frame :=
    List.map_congr_left fun k hk => frame_add_of_lt (some h) (hc.lt_length ha hh k hk)
  refine ⟨a.frames.length :: chain,
    .inside (parent?_add_length a (some h)) (hc.add ha hh (some h)), ?_⟩
  unfold Arena.child
  rw [List.map_cons, hsame, hframes, frame_add_length]
  rfl

theorem StandsFor.define_eq_error (ha : a.Ordered) (hs : a.StandsFor h scope) {e : ScopeError} :
    a.define h x τ = .error e ↔ scope.define x τ = .error e := by
  obtain ⟨chain, hc, hframes⟩ := hs
  obtain ⟨outer, rfl, -⟩ := hc.exists_outer ha
  obtain ⟨hframe, -⟩ := List.cons.inj hframes
  rw [Arena.define, Scope.define, hframe]
  cases scope.frame.define x τ <;> simp

/-- A name that is defined through a handle is defined in its scope. -/
theorem StandsFor.define (ha : a.Ordered) (hh : h < a.frames.length) (hs : a.StandsFor h scope)
    (hd : a.define h x τ = .ok a') :
    ∃ scope', scope.define x τ = .ok scope' ∧ a'.StandsFor h scope' := by
  obtain ⟨chain, hc, hframes⟩ := hs
  obtain ⟨outer, rfl, holder⟩ := hc.exists_outer ha
  obtain ⟨hframe, houter⟩ := List.cons.inj hframes
  have hfree : scope.frame.find? x = none := hframe ▸ (define_eq_ok_iff.mp hd).1
  refine ⟨{ scope with frame := { bindings := scope.frame.bindings ++ [(x, τ)] } }, ?_,
    h :: outer, hc.define hd, ?_⟩
  · rw [Scope.define, Frame.define, hfree]
  · -- the frames around it are older than the handle, so they keep what they bind
    have hsame : outer.map a'.frame = outer.map a.frame :=
      List.map_congr_left fun k hk => frame_define_of_ne (Nat.ne_of_lt (holder k hk)) hd
    rw [List.map_cons, frame_define_self hh hd, hframe, hsame, houter]
    rfl

end StandsFor

/-! ## Runs of requests -/

/-- What can be asked of an arena. The handles that were given out are counted from zero. -/
inductive Request where
  /-- A scope of its own. -/
  | root
  /-- A scope inside that of the handle number `of`. -/
  | child (of : Nat)
  /-- The scope around that of the handle number `of`. -/
  | parent (of : Nat)
  /-- A name in the scope of the handle number `of`. -/
  | define (of : Nat) (name : String) (ty : Ty)
deriving DecidableEq, Repr

/-- An arena and the handles given out for it. -/
structure InUse where
  arena : Arena := {}
  handles : List Nat := []
deriving DecidableEq, Repr

namespace InUse

variable {s : InUse}

/-- What a request makes of an arena. One that is refused, or that is made with a handle that was
not given out, makes nothing of it. -/
def step (s : InUse) : Request → InUse
  | .root => ⟨s.arena.root.1, s.handles ++ [s.arena.root.2]⟩
  | .child n =>
    match s.handles[n]? with
    | some h => ⟨(s.arena.child h).1, s.handles ++ [(s.arena.child h).2]⟩
    | none => s
  | .parent n =>
    match s.handles[n]?.bind s.arena.parent? with
    | some p => { s with handles := s.handles ++ [p] }
    | none => s
  | .define n name ty =>
    match s.handles[n]? with
    | some h =>
      match s.arena.define h name ty with
      | .ok a => { s with arena := a }
      | .error _ => s
    | none => s

/-- What requests make of an arena one after the other. -/
def run (s : InUse) : List Request → InUse
  | [] => s
  | r :: rs => (s.step r).run rs

/-- All that a request can do. -/
inductive Step (s : InUse) : InUse → Prop where
  | nothing : Step s s
  | added (parent : Option Nat) (hp : ∀ p, parent = some p → p ∈ s.handles) :
      Step s ⟨(s.arena.add parent).1, s.handles ++ [s.arena.frames.length]⟩
  | handed {h p : Nat} (hh : h ∈ s.handles) (hp : s.arena.parent? h = some p) :
      Step s { s with handles := s.handles ++ [p] }
  | defined {f : Nat} {x : String} {τ : Ty} {a : Arena} (hf : f ∈ s.handles)
      (hd : s.arena.define f x τ = .ok a) : Step s { s with arena := a }

theorem step_does (s : InUse) (r : Request) : Step s (s.step r) := by
  cases r with
  | root => exact .added none fun p hp => nomatch hp
  | child n =>
      rw [step]
      cases hn : s.handles[n]? with
      | none => exact .nothing
      | some h =>
          refine .added (some h) fun p hp => ?_
          cases hp
          exact List.mem_of_getElem? hn
  | parent n =>
      rw [step]
      cases hn : s.handles[n]? with
      | none => exact .nothing
      | some h =>
          rw [Option.bind_some]
          cases hp : s.arena.parent? h with
          | none => exact .nothing
          | some p => exact .handed (List.mem_of_getElem? hn) hp
  | define n x τ =>
      rw [step]
      cases hn : s.handles[n]? with
      | none => exact .nothing
      | some f =>
          dsimp only
          cases hd : s.arena.define f x τ with
          | error e => exact .nothing
          | ok a => exact .defined (List.mem_of_getElem? hn) hd

/-- What every run keeps true: the frames are in order, and a handle stands for a frame. -/
structure Sound (s : InUse) : Prop where
  ordered : s.arena.Ordered
  held : ∀ h ∈ s.handles, h < s.arena.frames.length

theorem sound_nil : Sound {} :=
  ⟨fun h p hp => by simp [parent?] at hp, fun h hh => absurd hh List.not_mem_nil⟩

/-- **One request keeps the frames in order.** -/
theorem Sound.step (hs : s.Sound) (r : Request) : (s.step r).Sound := by
  have hdoes := s.step_does r
  generalize s.step r = s' at hdoes ⊢
  cases hdoes with
  | nothing => exact hs
  | added parent hp =>
      refine ⟨hs.ordered.add fun p hparent => hs.held p (hp p hparent), ?_⟩
      intro h hh
      rw [length_add]
      rcases List.mem_append.mp hh with hh | hh
      · exact Nat.lt_succ_of_lt (hs.held h hh)
      · rw [List.mem_singleton.mp hh]
        exact Nat.lt_succ_self _
  | @handed h p hh hp =>
      refine ⟨hs.ordered, ?_⟩
      intro k hk
      rcases List.mem_append.mp hk with hk | hk
      · exact hs.held k hk
      · -- the frame around another one is older, so it is there too
        rw [List.mem_singleton.mp hk]
        exact Nat.lt_trans (hs.ordered h p hp) (hs.held h hh)
  | defined hf hd =>
      refine ⟨fun h p hp => hs.ordered h p ?_, fun h hh => ?_⟩
      · rwa [parent?_define hd] at hp
      · rw [length_define hd]
        exact hs.held h hh

theorem Sound.run (hs : s.Sound) (rs : List Request) : (s.run rs).Sound := by
  induction rs generalizing s with
  | nil => exact hs
  | cons r rs ih => exact ih (hs.step r)

/-- **A handle is used as its scope is.** Whatever was asked of a new arena, a handle stands for a
scope, which is the empty one for a scope of its own. Names are looked up and defined through the
handle as they are in that scope, with the same refusals, and a scope that is added inside it
stands for a nested one. -/
theorem handles_stand_for_scopes (rs : List Request) :
    let s := InUse.run {} rs
    s.arena.root.1.StandsFor s.arena.root.2 .empty ∧
    ∀ h ∈ s.handles, ∃ scope, s.arena.StandsFor h scope ∧
      (∀ x, s.arena.lookup h x = scope.lookup x) ∧
      (s.arena.child h).1.StandsFor (s.arena.child h).2 scope.nest ∧
      ∀ x τ, (∀ e, s.arena.define h x τ = .error e ↔ scope.define x τ = .error e) ∧
        ∀ a, s.arena.define h x τ = .ok a →
          ∃ scope', scope.define x τ = .ok scope' ∧ a.StandsFor h scope' := by
  intro s
  have hs : s.Sound := sound_nil.run rs
  refine ⟨standsFor_root _, fun h hh => ?_⟩
  obtain ⟨scope, hscope⟩ := hs.ordered.exists_scope h
  have hlt := hs.held h hh
  exact ⟨scope, hscope, hscope.lookup_eq hs.ordered, hscope.child hs.ordered hlt,
    fun x τ => ⟨fun e => hscope.define_eq_error hs.ordered,
      fun a hd => hscope.define hs.ordered hlt hd⟩⟩

/-! ## What stays of a handle -/

/-- What a handle stands for in `a`, it still stands for in `a'`: the same frame, inside the same
one, with its bindings and perhaps more behind them. -/
structure Kept (a a' : Arena) (h : Nat) : Prop where
  valid : h < a'.frames.length
  parent : a'.parent? h = a.parent? h
  bindings : (a.frame h).bindings <+: (a'.frame h).bindings

theorem Kept.refl (hh : h < a.frames.length) : Kept a a h :=
  ⟨hh, rfl, List.prefix_rfl⟩

theorem Kept.trans {a₁ a₂ a₃ : Arena} (h₁ : Kept a₁ a₂ h) (h₂ : Kept a₂ a₃ h) : Kept a₁ a₃ h :=
  ⟨h₂.valid, h₂.parent.trans h₁.parent, h₁.bindings.trans h₂.bindings⟩

/-- **One request takes nothing from a handle.** -/
theorem Sound.kept_step (hs : s.Sound) (r : Request) :
    s.handles <+: (s.step r).handles ∧
      ∀ h ∈ s.handles, Kept s.arena (s.step r).arena h := by
  have hdoes := s.step_does r
  generalize s.step r = s' at hdoes ⊢
  cases hdoes with
  | nothing => exact ⟨List.prefix_rfl, fun h hh => .refl (hs.held h hh)⟩
  | added parent hp =>
      refine ⟨List.prefix_append _ _, fun h hh => ?_⟩
      have hlt := hs.held h hh
      refine ⟨?_, parent?_add_of_lt parent hlt, ?_⟩
      · rw [length_add]
        exact Nat.lt_succ_of_lt hlt
      · simp only [frame_add_of_lt parent hlt, List.prefix_rfl]
  | handed _ _ => exact ⟨List.prefix_append _ _, fun h hh => .refl (hs.held h hh)⟩
  | @defined f x τ a hf hd =>
      refine ⟨List.prefix_rfl, fun h hh => ⟨?_, parent?_define hd h, ?_⟩⟩
      · rw [length_define hd]
        exact hs.held h hh
      · by_cases hne : h = f
        · subst hne
          rw [frame_define_self (hs.held h hf) hd]
          exact List.prefix_append _ _
        · simp only [frame_define_of_ne hne hd, List.prefix_rfl]

theorem Sound.kept_run (hs : s.Sound) (rs : List Request) :
    s.handles <+: (s.run rs).handles ∧
      ∀ h ∈ s.handles, Kept s.arena (s.run rs).arena h := by
  induction rs generalizing s with
  | nil => exact ⟨List.prefix_rfl, fun h hh => .refl (hs.held h hh)⟩
  | cons r rs ih =>
      obtain ⟨hfirst, hkept⟩ := hs.kept_step r
      obtain ⟨hrest, hkept'⟩ := ih (hs.step r)
      exact ⟨hfirst.trans hrest, fun h hh => (hkept h hh).trans (hkept' h (hfirst.subset hh))⟩

/-! ## What a request answers -/

/-- A scope was added: nobody had its handle `g`, nothing is bound in it, the scope `parent` is
around it, and what was seen before is still seen. -/
structure Opened (s s' : InUse) (parent : Option Nat) (g : Nat) : Prop where
  handed : s'.handles = s.handles ++ [g]
  fresh : g ∉ s.handles
  parent : s'.arena.parent? g = parent
  empty : s'.arena.frame g = {}
  lookups : ∀ h ∈ s.handles, ∀ x, s'.arena.lookup h x = s.arena.lookup h x

theorem Sound.opened (hs : s.Sound) {parent : Option Nat}
    (hp : ∀ p, parent = some p → p ∈ s.handles) :
    Opened s ⟨(s.arena.add parent).1, s.handles ++ [s.arena.frames.length]⟩ parent
      s.arena.frames.length where
  handed := rfl
  fresh := fun hmem => Nat.lt_irrefl _ (hs.held _ hmem)
  parent := parent?_add_length s.arena parent
  empty := frame_add_length s.arena parent
  lookups := fun h hh x =>
    lookup_add hs.ordered (fun p hparent => hs.held p (hp p hparent)) (hs.held h hh) x

theorem Sound.opened_child (hs : s.Sound) {n f : Nat} (hn : s.handles[n]? = some f) :
    ∃ g, Opened s (s.step (.child n)) (some f) g := by
  refine ⟨s.arena.frames.length, ?_⟩
  rw [InUse.step, hn]
  refine hs.opened fun p hp => ?_
  cases hp
  exact List.mem_of_getElem? hn

/-- A name that is bound already is refused, and nothing changes. -/
theorem step_define_of_bound {n f : Nat} (hn : s.handles[n]? = some f)
    (hx : (s.arena.frame f).find? x ≠ none) (τ : Ty) :
    s.arena.define f x τ = .error (.alreadyDefined x) ∧ s.step (.define n x τ) = s := by
  have hd : s.arena.define f x τ = .error (.alreadyDefined x) :=
    define_eq_error_iff.mpr ⟨hx, rfl⟩
  refine ⟨hd, ?_⟩
  rw [step, hn]
  dsimp only
  rw [hd]

theorem step_define_of_unbound {n f : Nat} (hn : s.handles[n]? = some f)
    (hx : (s.arena.frame f).find? x = none) (τ : Ty) :
    ∃ a, s.arena.define f x τ = .ok a ∧ s.step (.define n x τ) = { s with arena := a } := by
  obtain ⟨a, hd⟩ : ∃ a, s.arena.define f x τ = .ok a := ⟨_, define_eq_ok_iff.mpr ⟨hx, rfl⟩⟩
  refine ⟨a, hd, ?_⟩
  rw [step, hn]
  dsimp only
  rw [hd]

end InUse

/--
**An arena scopes its names lexically.** Whatever was asked of a new arena: Every frame stands
behind the one around it. A handle that was given out stands for the same frame for ever, inside
the same one. A new scope is empty, is inside the scope that was asked for, and hides nothing. A
handle has a chain of frames outwards. Looking a name up gives the binding of the first frame on
the chain that has one, and fails exactly if none has. A name that its frame binds already is
refused and nothing changes. Any other name is defined, and is then seen from exactly those handles
that meet the frame on their chain before any other one that binds the name; every other lookup
gives what it gave before.
-/
theorem requests_scope_lexically (rs : List Request) :
    let s := InUse.run {} rs
    (∀ h p, s.arena.parent? h = some p → p < h) ∧
    (∀ more, s.handles <+: (s.run more).handles ∧
      ∀ h ∈ s.handles, InUse.Kept s.arena (s.run more).arena h) ∧
    (∃ g, InUse.Opened s (s.step .root) none g) ∧
    (∀ n f, s.handles[n]? = some f →
      (∃ g, InUse.Opened s (s.step (.child n)) (some f) g) ∧
      (∀ p, s.arena.parent? f = some p →
        s.step (.parent n) = { s with handles := s.handles ++ [p] }) ∧
      ∀ x τ, ((s.arena.frame f).find? x ≠ none →
          s.arena.define f x τ = .error (.alreadyDefined x) ∧ s.step (.define n x τ) = s) ∧
        ((s.arena.frame f).find? x = none →
          ∃ a, s.arena.define f x τ = .ok a ∧ s.step (.define n x τ) = { s with arena := a })) ∧
    ∀ h ∈ s.handles, ∃ chain, s.arena.Chain h chain ∧
      (∀ x τ, s.arena.lookup h x = .ok τ ↔
        ∃ k, s.arena.Visible chain k x ∧ (s.arena.frame k).find? x = some τ) ∧
      (∀ x e, s.arena.lookup h x = .error e ↔
        e = .notDefined x ∧ ∀ k ∈ chain, (s.arena.frame k).find? x = none) ∧
      ∀ f ∈ s.handles, ∀ x τ a, s.arena.define f x τ = .ok a → ∀ y,
        (y = x ∧ s.arena.Visible chain f x → a.lookup h y = .ok τ) ∧
        (¬ (y = x ∧ s.arena.Visible chain f x) → a.lookup h y = s.arena.lookup h y) := by
  intro s
  have hs : s.Sound := InUse.sound_nil.run rs
  refine ⟨hs.ordered, hs.kept_run, ⟨_, hs.opened fun p hp => nomatch hp⟩, ?_, ?_⟩
  · intro n f hn
    refine ⟨hs.opened_child hn, fun p hp => ?_, fun x τ => ⟨fun hx => ?_, fun hx => ?_⟩⟩
    · rw [InUse.step, hn, Option.bind_some, hp]
    · exact InUse.step_define_of_bound hn hx τ
    · exact InUse.step_define_of_unbound hn hx τ
  · intro h hh
    obtain ⟨chain, hc⟩ := hs.ordered.exists_chain h
    exact ⟨chain, hc, fun x τ => hc.lookup_eq_ok_iff hs.ordered,
      fun x e => hc.lookup_eq_error_iff hs.ordered,
      fun f hf x τ a hd y => hc.lookup_define (hs.held f hf) hd hs.ordered y⟩

/-- A scope with two children, a grandchild in the first of them, and a scope of its own. The name
`x` is bound in the first child, after the grandchild was added. -/
def family : List Request :=
  [.root, .child 0, .child 1, .child 0, .root, .define 1 "x" .integer]

/-- The theorem above, of that arena: binding `x` again is refused in the first child and taken in
the scope around it. There the new binding is seen, and from the second child, but it is hidden
from the grandchild, and the scope of its own has nothing to do with it. -/
theorem family_scopes_lexically :
    let s := InUse.run {} family
    s.handles = [0, 1, 2, 3, 4] ∧ s.step (.define 1 "x" .decimal) = s ∧
      s.arena.lookup 2 "x" = .ok .integer ∧ s.arena.lookup 3 "x" = .error (.notDefined "x") ∧
      ∃ a, s.arena.define 0 "x" .decimal = .ok a ∧ a.lookup 0 "x" = .ok .decimal ∧
        a.lookup 2 "x" = .ok .integer ∧ a.lookup 3 "x" = .ok .decimal ∧
        a.lookup 4 "x" = .error (.notDefined "x") := by
  intro s
  obtain ⟨-, -, -, hrequests, hlookups⟩ := requests_scope_lexically family
  have hhandles : s.handles = [0, 1, 2, 3, 4] := by decide
  -- the frames from each of the handles outwards
  have hself : s.arena.Chain 0 [0] := .outermost rfl
  have hgrand : s.arena.Chain 2 [2, 1, 0] := .inside rfl (.inside rfl hself)
  have hsecond : s.arena.Chain 3 [3, 0] := .inside rfl hself
  have hown : s.arena.Chain 4 [4] := .outermost rfl
  obtain ⟨chain₀, h₀, -, -, hdefine₀⟩ := hlookups 0 (by decide)
  obtain ⟨chain₂, h₂, hfound₂, -, hdefine₂⟩ := hlookups 2 (by decide)
  obtain ⟨chain₃, h₃, -, hnone₃, hdefine₃⟩ := hlookups 3 (by decide)
  obtain ⟨chain₄, h₄, -, hnone₄, hdefine₄⟩ := hlookups 4 (by decide)
  obtain rfl := h₀.unique hself
  obtain rfl := h₂.unique hgrand
  obtain rfl := h₃.unique hsecond
  obtain rfl := h₄.unique hown
  have hinteger : s.arena.lookup 2 "x" = .ok .integer :=
    (hfound₂ "x" .integer).mpr ⟨1, ⟨[2], [0], rfl, by decide⟩, rfl⟩
  have hhidden : ¬ s.arena.Visible [2, 1, 0] 0 "x" := by
    rw [visible_cons, visible_cons]
    rintro (hne | ⟨-, hne | ⟨hbound, -⟩⟩)
    · cases hne
    · cases hne
    · exact absurd hbound (by decide)
  obtain ⟨-, -, hfirst⟩ := hrequests 1 1 rfl
  obtain ⟨-, -, houter⟩ := hrequests 0 0 rfl
  obtain ⟨a, hd, -⟩ := (houter "x" .decimal).2 rfl
  refine ⟨hhandles, ((hfirst "x" .decimal).1 (by decide)).2, hinteger,
    (hnone₃ "x" _).mpr ⟨rfl, by decide⟩, a, hd, ?_, ?_, ?_, ?_⟩
  · exact (hdefine₀ 0 (by decide) "x" .decimal a hd "x").1 ⟨rfl, [], [], rfl, by decide⟩
  · rw [(hdefine₂ 0 (by decide) "x" .decimal a hd "x").2 fun hv => hhidden hv.2]
    exact hinteger
  · exact (hdefine₃ 0 (by decide) "x" .decimal a hd "x").1 ⟨rfl, [3], [], rfl, by decide⟩
  · have hapart : ¬ s.arena.Visible [4] 0 "x" := by
      rw [visible_cons]
      rintro (hne | ⟨-, hv⟩)
      · cases hne
      · exact not_visible_nil hv
    rw [(hdefine₄ 0 (by decide) "x" .decimal a hd "x").2 fun hv => hapart hv.2]
    exact (hnone₄ "x" _).mpr ⟨rfl, by decide⟩

end LetWhile.Arena
