import Zucrypt.Consumers
import Zucrypt.KeyShares

/-! # What consumers see of one another

The keys of all consumers are in one store, and a handle knows its own by number.  A call is paid
for with the keys of its own group of handles (`KeyShares`), and looks at the static variables of
the adapter only to see whether the library is ready.  So the calls of a group are answered as they
would be if there were no others: they are a run of their own, in a window of their own, against a
backend that keeps the same law.

The main theorem, `consumers_cannot_disturb`, says three things of any order of calls from a library
that nobody holds:

* each call finds as many references as are held, keeps to the window, and is never told
  `ZUC_ERR_NOT_READY` (from `Consumers`);
* a `zuc_shutdown` at count 0 calls nothing and changes nothing;
* the calls with one group's handles, taken out of the order, are an order of calls with the same
  results and handles, against a store that holds that group's keys only.

The third part is for any law of the key store (`StoreLaw`): it asks that the answers of the backend
to all calls uphold the law, and gives that the answers to the group's calls do.  The invariant is
`Parted`: every key a group knows is in the store, and no other group knows it.  `Parted.inside`
keeps it over a call with handles, and `Parted.lifetime` over a start or a stop, where there are no
keys to keep. -/
namespace Zucrypt
open Effects ByteMemory KeySlots Resources

variable {O : Objects} {M ι κ : Type} [DecidableEq ι] [DecidableEq κ]

/-! ### What a call sees of the others -/

/-- What the watch has recorded is the same too. -/
def SeesAlike (w w₂ : World) : Prop := SeesSame w w₂ ∧ w.allocFailed = w₂.allocFailed

/-- A call cannot tell two worlds apart that have the same memory and are both ready. -/
theorem indistinct_seesAlike : Indistinct SeesAlike where
  mem h := h.1.1
  ready h := h.1.2
  noteAlloc b h := ⟨indistinct_seesSame.noteAlloc b h.1, congrArg (· || b) h.2⟩
  store p bs h := ⟨indistinct_seesSame.store p bs h.1, h.2⟩
  count d h := ⟨indistinct_seesSame.count d h.1, h.2⟩

/-- The watch on an allocation starts with nothing recorded. -/
theorem underWatch_apply (p : Adapter O (CallResult × Pool O)) (w : World) :
    Command.underWatch p w = (p { w with allocFailed := false }).bind fun x =>
      .done (({ x.1.1 with
        status := if x.1.1.status ≠ .ok ∧ x.2.allocFailed then .errMemory else x.1.1.status }, x.1.2), x.2) :=
  rfl

/-- A call answered alike does alike in two worlds with the same memory, if the library is ready
in both. -/
theorem runs_inside {pool : Pool O} {c : Command} (hc : ¬ c.IsLifetime) {w w₂ : World}
    (hw : SeesSame w w₂) {t : List (Event (Call O))} {r : CallResult × Pool O} {w' : World}
    (hrun : Runs (c.run pool w) t (r, w')) :
    ∃ w₂', Runs (c.run pool w₂) t (r, w₂') ∧ SeesSame w' w₂' := by
  cases himpl : c.impl pool with
  | none => exact (Command.ordinary_run himpl hc).runs indistinct_seesSame hw hrun
  | some p =>
    rw [Command.run_eq_underWatch himpl, underWatch_apply] at hrun ⊢
    -- the watch begins with nothing recorded
    have hclear : SeesAlike { w with allocFailed := false } { w₂ with allocFailed := false } := ⟨hw, rfl⟩
    obtain ⟨t₁, ⟨a, w₁⟩, t₂, rfl, hrun₁, hrun₂⟩ := Runs.bind_iff.mp hrun
    obtain ⟨w₁', hrun₁', hw₁⟩ := (Command.ordinary_impl himpl).runs indistinct_seesAlike hclear hrun₁
    obtain ⟨rfl, heq⟩ := Runs.done_iff.mp hrun₂
    obtain ⟨rfl, rfl⟩ := Prod.mk.inj heq
    refine ⟨w₁', Runs.bind_iff.mpr ⟨t₁, (a, w₁'), [], rfl, hrun₁', ?_⟩, hw₁.1⟩
    rw [hw₁.2]
    exact .done _

/-! ### Keys -/

/-- The keys of each group are there, and are nobody else's. -/
structure Parted (lib : Library O ι κ) (S : KeyStore M) : Prop where
  owned : ∀ g, Owned S (lib.pools g).resources
  apart : ∀ {g g' k}, g ≠ g' → .key k ∈ (lib.pools g).resources → .key k ∉ (lib.pools g').resources

/-- Nothing is kept of an empty store. -/
theorem KeyStore.only_none (held : Multiset Resource) :
    KeyStore.only (fun _ => none : KeyStore M) held = fun _ => none :=
  funext fun _ => ite_self _

/-- A group without handles owns nothing. -/
theorem resources_of_handles {pool : Pool O} (h : pool.handles = []) : pool.resources = 0 := by
  rw [Pool.resources_eq, Pool.keys, Pool.blocks, h]
  rfl

section
variable {L : StoreLaw O M} {lib lib' : Library O ι κ} {u : Turn O ι κ} {S S' : KeyStore M}

theorem inWindow_of_isInside {e : Event (Call O)} (he : IsInside e) : InWindow e := by
  obtain ⟨op, r⟩ := e
  cases op with
  | psa c => cases c <;> trivial
  | _ => trivial

/-- The call is paid for by its own group. -/
theorem Turn.Takes.settles (h : u.Takes lib lib') (hc : ¬ u.command.IsLifetime) :
    settle tariff (lib.pools u.group).resources u.trace = some (lib'.pools u.group).resources := by
  obtain ⟨pool, w', hrun, -, rfl⟩ := h
  have hinside := ensures_inside hc _ u.trace (u.result, pool) w' hrun fun _ _ => trivial
  obtain ⟨r, htrades, rfl, -⟩ := balanced_run (lib.pools u.group) u.command _ u.trace (u.result, pool) w'
    hrun fun e he => inWindow_of_isInside (hinside.2 e he)
  show _ = some (Function.update lib.pools u.group pool u.group).resources
  rw [Function.update_self]
  exact htrades.settle_eq

/-- A call with a group's handles changes that group's keys and no other's, and the law held for the
group's part of the store. -/
theorem Parted.inside (h : Parted lib S) (htakes : u.Takes lib lib') (hc : ¬ u.command.IsLifetime)
    (hupholds : L.Obeys S u.trace S') : Parted lib' S' ∧
      L.Obeys (S.only (lib.pools u.group).resources) u.trace (S'.only (lib'.pools u.group).resources) ∧
        ∀ g, g ≠ u.group → S'.only (lib'.pools g).resources = S.only (lib.pools g).resources := by
  have hshared := obeys_share hupholds (htakes.settles hc) (h.owned u.group)
  -- the keys of the other groups are others' keys
  have hothers : ∀ g, g ≠ u.group → ∀ k, .key k ∈ (lib.pools g).resources →
      S' k = S k ∧ Others S' (lib'.pools u.group).resources k := fun g hg k hk =>
    hshared.others k ⟨(h.owned g).there hk, h.apart hg hk⟩
  refine ⟨⟨fun g => ?_, fun {g g' k} hne hk => ?_⟩, hshared.alone, fun g hg => ?_⟩
  · by_cases hg : g = u.group
    · rw [hg]
      exact hshared.owned
    · rw [htakes.pools_of_ne hg]
      refine ⟨fun hk => ?_, (h.owned g).once⟩
      rw [(hothers g hg _ hk).1]
      exact (h.owned g).there hk
  · by_cases hg : g = u.group
    · subst hg
      rw [htakes.pools_of_ne hne.symm]
      exact fun hk' => (hothers g' hne.symm k hk').2.2 hk
    · rw [htakes.pools_of_ne hg] at hk
      by_cases hg' : g' = u.group
      · rw [hg']
        exact (hothers g hg k hk).2.2
      · rw [htakes.pools_of_ne hg']
        exact h.apart hne hk
  · rw [htakes.pools_of_ne hg]
    exact KeyStore.only_congr fun k hk => (hothers g hg k hk).1

/-- Starting the backend leaves the keys alone, and when it is stopped there are none. -/
theorem Parted.lifetime (h : Parted lib S) (hsteady : Steady lib) (hentitled : u.Entitled lib)
    (htakes : u.Takes lib lib') (hc : u.command.IsLifetime) (hupholds : Upholds L S u.trace S') :
    Parted lib' S' ∧ ∀ g, S'.only (lib'.pools g).resources = S.only (lib.pools g).resources := by
  -- unless the backend is stopped, neither handles nor keys change
  have hsame : lib'.pools = lib.pools → S' = S →
      Parted lib' S' ∧ ∀ g, S'.only (lib'.pools g).resources = S.only (lib.pools g).resources := by
    rintro hpools rfl
    refine ⟨⟨fun g => ?_, fun {g g' k} hne hk => ?_⟩, fun g => by rw [hpools]⟩
    · rw [hpools]
      exact h.owned g
    · rw [hpools] at hk ⊢
      exact h.apart hne hk
  rcases Command.isLifetime_iff.mp hc with hinit | hshutdown
  · obtain ⟨hspec, hpool⟩ := htakes.init hinit
    refine hsame (htakes.pools_eq hpool) ?_
    by_cases hzero : lib.world.refcount = 0
    · obtain ⟨r, htrace, -⟩ := hspec.first hzero
      rw [htrace] at hupholds
      obtain ⟨S₁, hstep, rfl⟩ := hupholds
      exact hstep.2
    · obtain ⟨htrace, -⟩ := hspec.later hzero
      rw [htrace] at hupholds
      exact hupholds
  · obtain ⟨hspec, hpool⟩ := htakes.shutdown hshutdown
    have hpools := htakes.pools_eq hpool
    by_cases hzero : lib.world.refcount = 0
    · obtain ⟨htrace, -⟩ := hspec.none hzero
      rw [htrace] at hupholds
      exact hsame hpools hupholds
    by_cases hone : lib.world.refcount = 1
    · -- the last reference is given up, so nobody has a handle, nor a key to lose
      obtain ⟨r, htrace, hok, hworld⟩ := hspec.last hone
      have hsteady' := (hsteady.step hentitled htakes).1
      have hempty : lib'.references = 0 := by
        rw [← hsteady'.refcount_eq_zero, hworld]
      have hnone : ∀ g, (lib'.pools g).resources = 0 := fun g =>
        resources_of_handles (hsteady'.holders g (by rw [hempty]; exact Multiset.notMem_zero _))
      refine ⟨⟨fun g => ?_, fun {g g' k} _ hk => ?_⟩, fun g => ?_⟩
      · rw [hnone]
        exact Owned.zero S'
      · rw [hnone] at hk
        exact absurd hk (Multiset.notMem_zero _)
      · have hbefore := hnone g
        rw [hpools] at hbefore
        rw [hnone, hbefore, KeyStore.only_zero, KeyStore.only_zero]
    · obtain ⟨htrace, -⟩ := hspec.other hzero hone
      rw [htrace] at hupholds
      exact hsame hpools hupholds

end

/-! ### Whole runs -/

/-- The calls with the handles of one group. -/
def Turn.own (g : κ) (u : Turn O ι κ) : Bool := decide (u.group = g) && u.command.inside

section
variable {L : StoreLaw O M} {lib lib' : Library O ι κ} {turns : List (Turn O ι κ)} {S S' : KeyStore M}
  {g : κ}

omit [DecidableEq ι] [DecidableEq κ] in
/-- While nobody has a handle there is nothing to part. -/
theorem parted_bare (owner : κ → ι) (w : World) (references : Multiset ι) (S : KeyStore M) :
    Parted (Library.bare owner w references : Library O ι κ) S where
  owned _ := Owned.zero S
  apart _ hk := absurd hk (Multiset.notMem_zero _)

/-- The group's own call, made where there are no others. -/
theorem Turn.Takes.alone {u : Turn O ι κ} {lib₁ : Library O ι κ} (h : u.Takes lib lib')
    (hc : ¬ u.command.IsLifetime) (hpool : lib₁.pools u.group = lib.pools u.group)
    (hready : 0 < lib.world.refcount) (hready₁ : 0 < lib₁.world.refcount) :
    ∃ lib₁', u.Takes lib₁ lib₁' ∧ lib₁'.pools u.group = lib'.pools u.group ∧
      lib₁'.references = lib₁.references ∧ 0 < lib₁'.world.refcount := by
  have hcount := (h.inside hc).1
  obtain ⟨pool, w', hrun, hafter, rfl⟩ := h
  have hsees : SeesSame { lib.world with mem := u.memory } { lib₁.world with mem := u.memory } :=
    ⟨rfl, iff_of_true hready hready₁⟩
  obtain ⟨w₁', hrun₁, hmem, hiff⟩ := runs_inside hc hsees hrun
  refine ⟨⟨lib₁.owner, w₁', Function.update lib₁.pools u.group pool, u.references lib₁.references⟩,
    ⟨pool, w₁', ?_, hafter.trans hmem, rfl⟩, ?_, Turn.references_inside hc, hiff.mp ?_⟩
  · rw [hpool]
    exact hrun₁
  · show Function.update lib₁.pools u.group pool u.group = Function.update lib.pools u.group pool u.group
    rw [Function.update_self, Function.update_self]
  · have hcount : w'.refcount = lib.world.refcount := hcount
    rw [hcount]
    exact hready

/-- From any state of the library: `lib₁` has the handles of the group and no others. -/
theorem alone_of_interleaved (hrun : Interleaved lib turns lib') (hsteady : Steady lib)
    (hparted : Parted lib S) (hupholds : Upholds L S (calls turns) S') {lib₁ : Library O ι κ}
    (howner : lib₁.owner = lib.owner) (hpool : lib₁.pools g = lib.pools g)
    (hreference : lib.owner g ∈ lib₁.references) (hready : 0 < lib₁.world.refcount) :
    ∃ lib₁', Interleaved lib₁ (turns.filter (Turn.own g)) lib₁' ∧ lib₁'.pools g = lib'.pools g ∧
      L.Obeys (S.only (lib.pools g).resources) (calls (turns.filter (Turn.own g)))
        (S'.only (lib'.pools g).resources) := by
  -- what carries the induction: `lib₁` is ready, and has the group's handles as they are
  induction hrun generalizing S lib₁ with
  | nil lib =>
    obtain rfl : S' = S := hupholds
    exact ⟨lib₁, .nil lib₁, hpool, rfl⟩
  | @cons lib lib₂ lib' u turns hentitled htakes hrest ih =>
    have hcalls : calls (u :: turns) = u.trace ++ calls turns := List.flatMap_cons
    rw [hcalls] at hupholds
    obtain ⟨S₁, hfirst, hupholds⟩ := upholds_append.mp hupholds
    have hsteady₂ := (hsteady.step hentitled htakes).1
    have howner₂ : lib₂.owner = lib.owner := htakes.owner_eq
    by_cases hc : u.command.IsLifetime
    · have hown : Turn.own g u = false := by
        rw [Turn.own, Bool.and_eq_false_iff]
        exact .inr (Bool.eq_false_of_not_eq_true fun hin => Command.inside_iff.mp hin hc)
      obtain ⟨hparted₂, honly⟩ := hparted.lifetime hsteady hentitled htakes hc hfirst
      have hpools : lib₂.pools = lib.pools := by
        rcases Command.isLifetime_iff.mp hc with hinit | hshutdown
        · exact htakes.pools_eq (htakes.init hinit).2
        · exact htakes.pools_eq (htakes.shutdown hshutdown).2
      rw [List.filter_cons_of_neg (by simp [hown]), ← honly g]
      exact ih hsteady₂ hparted₂ hupholds (howner.trans howner₂.symm) (by rw [hpool, hpools])
        (by rw [howner₂]; exact hreference) hready
    have hobeys : L.Obeys S u.trace S₁ := by
      refine (upholds_iff_obeys fun e he => ?_).mp hfirst
      exact stops_eq_false ((htakes.inside hc).2 e he)
    obtain ⟨hparted₂, halone, hothers⟩ := hparted.inside htakes hc hobeys
    by_cases hg : u.group = g
    · subst hg
      have hown : Turn.own u.group u = true := by
        rw [Turn.own, decide_eq_true rfl, Bool.true_and]
        exact Command.inside_iff.mpr hc
      have hinit : u.command ≠ .init := fun hinit => hc (Command.isLifetime_iff.mpr (Or.inl hinit))
      have hshutdown : u.command ≠ .shutdown := fun hdown =>
        hc (Command.isLifetime_iff.mpr (Or.inr hdown))
      obtain ⟨lib₁', htakes₁, hpool₁, hrefs₁, hready₁⟩ :=
        htakes.alone hc hpool (hsteady.ready hentitled hinit) hready
      have hentitled₁ : u.Entitled lib₁ :=
        ⟨by rw [howner]; exact hentitled.own, fun _ => hentitled.own ▸ hreference,
          fun hdown => absurd hdown hshutdown⟩
      obtain ⟨lib₁'', hrun₁, hpool', hobeys'⟩ := ih hsteady₂ hparted₂ hupholds
        (htakes₁.owner_eq.trans (howner.trans howner₂.symm)) hpool₁
        (by rw [howner₂, hrefs₁]; exact hreference) hready₁
      rw [List.filter_cons_of_pos hown]
      refine ⟨lib₁'', .cons hentitled₁ htakes₁ hrun₁, hpool', ?_⟩
      have hcalls : calls (u :: turns.filter (Turn.own u.group)) =
          u.trace ++ calls (turns.filter (Turn.own u.group)) := List.flatMap_cons
      rw [hcalls]
      exact StoreLaw.obeys_append.mpr ⟨_, halone, hobeys'⟩
    · have hown : Turn.own g u = false := by
        rw [Turn.own, decide_eq_false hg, Bool.false_and]
      rw [List.filter_cons_of_neg (by simp [hown]), ← hothers g (Ne.symm hg)]
      exact ih hsteady₂ hparted₂ hupholds (howner.trans howner₂.symm)
        (hpool.trans (htakes.pools_of_ne (Ne.symm hg)).symm) (by rw [howner₂]; exact hreference) hready

/-- No call with the group's handles stops the backend. -/
theorem stops_of_own (hrun : Interleaved lib turns lib') {e : Event (Call O)}
    (he : e ∈ calls (turns.filter (Turn.own g))) : stops e = false := by
  induction hrun with
  | nil lib => cases he
  | @cons lib lib₁ lib' u turns _ htakes _ ih =>
    by_cases hown : Turn.own g u = true
    · have hcalls : calls (u :: turns.filter (Turn.own g)) =
          u.trace ++ calls (turns.filter (Turn.own g)) := List.flatMap_cons
      rw [List.filter_cons_of_pos hown, hcalls] at he
      have hc : ¬ u.command.IsLifetime := Command.inside_iff.mp ((Bool.and_eq_true_iff.mp hown).2)
      exact (List.mem_append.mp he).elim (fun hfirst => stops_eq_false ((htakes.inside hc).2 e hfirst)) ih
    · rw [List.filter_cons_of_neg hown] at he
      exact ih he

/-- The calls with a group's handles, in any order of calls of all consumers, are a run of their
own in a window that was just opened, and the backend has only the group's keys there. -/
theorem Interleaved.alone {owner : κ → ι} {w : World} (hw : w.refcount = 0)
    (hrun : Interleaved (Library.bare owner w 0) turns lib')
    (hupholds : Upholds L (fun _ => none) (calls turns) S') (g : κ) {w₁ : World} (hw₁ : w₁.refcount = 1) :
    ∃ lib₁, Interleaved (Library.bare owner w₁ {owner g}) (turns.filter (Turn.own g)) lib₁ ∧
      lib₁.pools g = lib'.pools g ∧
      Upholds L (fun _ => none) (calls (turns.filter (Turn.own g))) (S'.only (lib'.pools g).resources) := by
  have hready : 0 < (Library.bare owner w₁ {owner g} : Library O ι κ).world.refcount := by
    show 0 < w₁.refcount
    rw [hw₁]
    decide
  have howner : (Library.bare owner w₁ {owner g} : Library O ι κ).owner =
      (Library.bare owner w 0 : Library O ι κ).owner := rfl
  have hpool : (Library.bare owner w₁ {owner g} : Library O ι κ).pools g =
      (Library.bare owner w 0 : Library O ι κ).pools g := rfl
  obtain ⟨lib₁, hrun₁, hpools, hobeys⟩ := alone_of_interleaved hrun (steady_bare owner hw)
    (parted_bare owner w 0 _) hupholds howner hpool (Multiset.mem_singleton_self _) hready
  rw [KeyStore.only_none] at hobeys
  exact ⟨lib₁, hrun₁, hpools, (upholds_iff_obeys fun e he => stops_of_own hrun he).mpr hobeys⟩

/-- Consumers cannot disturb one another. -/
theorem consumers_cannot_disturb {owner : κ → ι} {w : World} (hw : w.refcount = 0)
    (hrun : Interleaved (Library.bare owner w 0) turns lib') :
    -- each call finds as many references as are held, and keeps to the window
    (∀ before u after, turns = before ++ u :: after →
      ∃ lib₁ lib₂, Interleaved (Library.bare owner w 0) before lib₁ ∧ u.Takes lib₁ lib₂ ∧
        Interleaved lib₂ after lib' ∧ Steady lib₁ ∧ Orderly u lib₁ lib₂ ∧
          u.result.status ≠ .errNotReady) ∧
    -- a `zuc_shutdown` at 0 does nothing
    (∀ (u : Turn O ι κ) lib₁ lib₂, lib₁.world.refcount = 0 → u.command = .shutdown →
      u.Takes lib₁ lib₂ → u.trace = [] ∧ u.result.status = .errInvalidArgument ∧
        lib₂ = { lib₁ with world := { lib₁.world with mem := u.memory } }) ∧
    -- and the calls with the handles of a group are a run of their own
    ∀ (M : Type) (L : StoreLaw O M) S', Upholds L (fun _ => none) (calls turns) S' →
      ∀ g (w₁ : World), w₁.refcount = 1 →
        ∃ lib₁, Interleaved (Library.bare owner w₁ {owner g}) (turns.filter (Turn.own g)) lib₁ ∧
          lib₁.pools g = lib'.pools g ∧
            Upholds L (fun _ => none) (calls (turns.filter (Turn.own g)))
              (S'.only (lib'.pools g).resources) := by
  refine ⟨?_, fun u lib₁ lib₂ hzero hc htakes => htakes.refused hc hzero, ?_⟩
  · rintro before u after rfl
    exact Interleaved.orderly hw hrun
  · intro M L S' hupholds g w₁ hw₁
    exact Interleaved.alone hw hrun hupholds g hw₁

end

/-- Two consumers, each with an AES key: the second is done while the first still encrypts. -/
def twoConsumers : List (Ask Bool Bool) :=
  [⟨false, false, fun _ => 0, .init⟩, ⟨true, true, fun _ => 0, .init⟩,
    ⟨false, false, fun _ => 0, .aesNew 1024 16 true⟩, ⟨true, true, fun _ => 0, .aesNew 1024 16 true⟩,
    ⟨false, false, fun _ => 0, .aesCbcEncrypt 0 2048 16 4096⟩, ⟨true, true, fun _ => 0, .aesFree 0⟩,
    ⟨true, true, fun _ => 0, .shutdown⟩, ⟨false, false, fun _ => 0, .aesCbcEncrypt 0 2048 16 4096⟩,
    ⟨false, false, fun _ => 0, .aesFree 0⟩, ⟨false, false, fun _ => 0, .shutdown⟩]

/-- Both consumers' calls succeed, in this order and against the reference backend; and what the
first one did is a run of its own. -/
theorem consumers_cannot_disturb_two :
    let E := referenceEngine knownPrimitives
    let bare : Library referenceObjects Bool Bool := .bare id idleWorld 0
    ∃ turns lib' s', play (slotBackend E) twoConsumers bare ⟨.empty, ()⟩ = some (turns, lib', s') ∧
      turns.map (·.result.status) = List.replicate 10 .ok ∧
      (∀ before u after, turns = before ++ u :: after →
        ∃ lib₁ lib₂, Interleaved bare before lib₁ ∧ u.Takes lib₁ lib₂ ∧ Interleaved lib₂ after lib' ∧
          Steady lib₁ ∧ Orderly u lib₁ lib₂ ∧ u.result.status ≠ .errNotReady) ∧
      ∃ lib₁, Interleaved (Library.bare id readyWorld {false}) (turns.filter (Turn.own false)) lib₁ ∧
        lib₁.pools false = lib'.pools false ∧
        Upholds E.law (fun _ => none) (calls (turns.filter (Turn.own false)))
          (KeyStore.only s'.slots.find (lib'.pools false).resources) := by
  intro E bare
  have hplays : (play (slotBackend E) twoConsumers bare ⟨.empty, ()⟩).map
      (fun r => r.1.map (·.result.status)) = some (List.replicate 10 .ok) := by
    decide +kernel
  obtain ⟨⟨turns, lib', s'⟩, hplay, hstatus⟩ := Option.map_eq_some_iff.mp hplays
  have hupholds := upholds_play hplay
  rw [show (Store.empty : Store _).find = fun _ => none from funext Store.find_empty] at hupholds
  obtain ⟨hcalls, -, halone⟩ := consumers_cannot_disturb rfl (interleaved_play hplay)
  exact ⟨turns, lib', s', hplay, hstatus, hcalls, halone _ E.law _ hupholds false readyWorld rfl⟩

/-- A backend that does not start: `psa_crypto_init` is called, and there is no reference before it
and none after. -/
theorem failed_start_leaves_no_reference :
    let E : Engine referenceObjects _ _ :=
      { referenceEngine knownPrimitives with start := fun s => (.errorInsufficientEntropy, s) }
    let bare : Library referenceObjects Bool Bool := .bare id idleWorld 0
    let u := (⟨false, false, fun _ => 0, .init⟩ : Ask Bool Bool).turn (slotBackend E) bare ⟨.empty, ()⟩
    ∃ lib', Interleaved bare [u] lib' ∧
      ¬ ((∃ e ∈ u.trace, starts e = true) ↔ bare.references.card = 0 ∧ lib'.references.card = 1) := by
  intro E bare u
  refine ⟨_, .cons (by decide +kernel) (Ask.takes_turn _ _ _ _) (.nil _), fun hiff => ?_⟩
  have hstarts : u.trace.any starts = true := by
    decide +kernel
  have hopen := (hiff.mp (List.any_eq_true.mp hstarts)).2
  exact absurd hopen (by decide +kernel)

end Zucrypt
