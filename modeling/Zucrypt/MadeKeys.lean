import Zucrypt.KeyUse

/-! # Handles that constructors hand out

`Made` is how a caller comes by a key handle: from one of the three constructors, or as the public
half of one it has.  Every such handle `Holds` a key: it is on a key the backend takes, and one that
fits the buffer it is exported into.

`Made.holds` is by induction on how the handle was made, and each case is what `KeyMaking` says of
the constructor.  It is why the results about handles need no assumption on their material: a caller
has no other way to one. -/
namespace Zucrypt
open Effects ByteMemory

variable {O : Objects} {T : KeyTheory O} {L : StoreLaw O StoredKey}

/-- A run of `p` in which no allocation fails, against a backend that keeps the law. -/
def Ran {α : Type} (L : StoreLaw O StoredKey) (w : World) (S : KeyStore StoredKey) (p : Adapter O α)
    (a : α) (w' : World) (S' : KeyStore StoredKey) : Prop :=
  ∃ t, Runs (p w) t (a, w') ∧ (∀ e ∈ t, Calm e) ∧ L.Obeys S t S'

theorem Ran.mono {α : Type} {L' : StoreLaw O StoredKey} {w w' : World} {S S' : KeyStore StoredKey}
    {p : Adapter O α} {a : α} (h : Ran L w S p a w' S') (hL : L.Implies L') : Ran L' w S p a w' S' := by
  obtain ⟨t, hrun, hcalm, hS⟩ := h
  exact ⟨t, hrun, hcalm, hS.mono hL⟩

theorem Meets.of_ran {α : Type} {w w' : World} {S S' : KeyStore StoredKey} {p : Adapter O α} {a : α}
    {Q : α → World → KeyStore StoredKey → Prop} (h : Meets L w S p Q) (hran : Ran L w S p a w' S') :
    Q a w' S' := by
  obtain ⟨t, hrun, hcalm, hS⟩ := hran
  exact h t a w' hrun hcalm S' hS

/-- Every function has a run against a backend. -/
theorem CalmBackend.exists_ran {σ α : Type} {h : Handler (Call O) σ} {store : σ → KeyStore StoredKey}
    (hh : CalmBackend L h store) (p : Adapter O α) (w : World) (s : σ) :
    ∃ a w' s', Ran L w (store s) p a w' (store s') := by
  obtain ⟨hcalm, hobeys⟩ := hh.trace (p w) s
  exact ⟨_, _, _, _, Runs.run h (p w) s, hcalm, hobeys⟩

/-- A call handed the handle out. -/
def Hands (L : StoreLaw O StoredKey) (p : Adapter O (ZucStatus × Option ZucPkey))
    (handle : ZucPkey) : Prop := ∃ w S st w' S', Ran L w S p (st, some handle) w' S'

/-- The handles of a caller. -/
inductive Made (L : StoreLaw O StoredKey) : ZucPkey → Prop
  | parse {inp len : Nat} {privateKey out : Bool} {handle : ZucPkey}
    (h : Hands L (zucPkeyParse inp len privateKey out) handle) : Made L handle
  | generate {type : ZucAlg} {bits : Nat} {out : Bool} {handle : ZucPkey}
    (h : Hands L (zucPkeyGenerate type bits out) handle) : Made L handle
  | imported {type : ZucAlg} {privateKey : Bool} {data len : Nat} {out : Bool} {handle : ZucPkey}
    (h : Hands L (zucPkeyImport type privateKey data len out) handle) : Made L handle
  | publicHalf {key handle : ZucPkey} {out : Bool} (hkey : Made L key)
    (h : Hands L (zucPkeyPublic (some key) out) handle) : Made L handle

theorem meets_watched_sound {w : World} {S : KeyStore StoredKey}
    {impl : Adapter O (ZucStatus × Option ZucPkey)}
    (h : ∀ w₀, Meets L w₀ S impl (Sound T w₀)) :
    Meets L w S (watched impl) fun r _ _ => HandsSound T r :=
  Meets.watched fun w₀ _ _ hcalm =>
    (h w₀).mono fun _ _ _ hr => ⟨hr.1.allocFailed.trans hcalm, hr.2⟩

theorem Hands.sound {impl : Adapter O (ZucStatus × Option ZucPkey)} {handle : ZucPkey}
    (hmeets : ∀ w S, Meets L w S impl (Sound T w)) (h : Hands L (watched impl) handle) :
    ∃ key, Holds T handle key := by
  obtain ⟨w, S, st, w', S', hran⟩ := h
  obtain ⟨key, hloads, hfits⟩ :=
    (meets_watched_sound fun w₀ => hmeets w₀ S).of_ran hran handle rfl
  exact ⟨key, hloads, hfits⟩

/-- Every handle of a caller is on a key. -/
theorem Made.holds (hL : L.Implies T.law) {handle : ZucPkey} (h : Made L handle) :
    ∃ key, Holds T handle key := by
  induction h with
  | parse h => exact h.sound fun w S => meets_pkeyParseImpl_sound hL _ _ _ _
  | generate h => exact h.sound fun w S => meets_pkeyGenerateImpl_sound hL _ _ _
  | imported h => exact h.sound fun w S => meets_pkeyImportImpl_sound hL _ _ _ _ _
  | publicHalf hkey h ih =>
    obtain ⟨key, hholds⟩ := ih
    exact h.sound fun w S => meets_pkeyPublicImpl_sound hL hholds.toLoads _

/-- A handle is on one key only. -/
theorem Loads.unique {handle : ZucPkey} {key key' : RefKey} (h : Loads T handle key)
    (h' : Loads T handle key') : key = key' := by
  cases key
  cases key'
  rw [RefKey.mk.injEq]
  exact ⟨h.ptype.symm.trans h'.ptype, h.bits.symm.trans h'.bits, h.material.symm.trans h'.material⟩

end Zucrypt
