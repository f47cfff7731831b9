import Zucrypt.FreshRuns
import Zucrypt.KeyLists

/-! # RSA keys as integers

A list of raw vectors goes through `der_sequence` and `der_integers` with its numbers in order, and
the reader stops where the encoding does.  So the integers that `as.list` gives of an RSA key are
the key's, and `crypt_rsa_key` makes the key of them again.

`rsa_integers_roundTrip` has the two levels.  Of lists of vectors, with any zeros in front and up to
the length R can count: the encoding is DER, and reading it gives the vectors without those zeros
and ends at its last byte.  Of keys: `as.list` of a public key that was made always gives its
integers, and `crypt_rsa_key` of these the same key; of a private key it does exactly if the public
half fits the buffer it is exported into, since `as.list` takes that half too.

The backend keeps the law of RSA keys and has memory for everyone (`RMeets`), and R's vectors are
where they were put (`vectorLaw`).  `RsaTheory` is what the backend takes for an RSA key; it bounds
the modulus at 4096 bits, and so the lists at a length that can be written. -/
namespace Zucrypt
open Effects ByteMemory

namespace R

/-! ### Lists of integers -/

/-- Where the loop of `der_integers` ends. -/
def endFrom (der : List Byte) (pos : Nat) : Option Nat :=
  if pos ≤ der.length then
    if der[pos - 1]? = some 0x02 then
      match readLen der (pos + 1) with
      | none => none
      | some (len, octets) =>
        let start := pos + 1 + octets
        if VECTOR_MAX < len then none else endFrom der (start + len)
    else
      none
  else
    some pos
termination_by der.length + 1 - pos

/-- Where `der_integers` stops reading. -/
def endOfIntegers (der : List Byte) : Option Nat :=
  match readLen der 2 with
  | none => none
  | some (_, octets) => endFrom der (2 + octets)

/-- A vector without the zeros it begins with, and one zero for zero. -/
def stripped (x : List Byte) : List Byte := orZero (x.dropWhile (· = 0))

/-- The vector without zeros is the least one of its number. -/
theorem stripped_eq_minimal (x : List Byte) : stripped x = minimal (Der.value x) := by
  rw [stripped, minimal, Der.octets_value]

/-- The end is sought behind an integer, -/
theorem endFrom_integer {m : Nat} (hm : (Der.unsigned m).length ≤ VECTOR_MAX) (pre rest : List Byte) :
    endFrom (pre ++ (Der.integer m ++ rest)) (pre.length + 1) =
      endFrom (pre ++ (Der.integer m ++ rest)) (pre.length + (Der.integer m).length + 1) := by
  obtain ⟨hin, htag, octets, hlength, -, hend⟩ := turn_integer hm pre rest
  rw [endFrom, if_pos hin, if_pos htag, hlength]
  simp only [if_neg (Nat.not_lt.mpr hm), hend]

/-- and behind all of them, -/
theorem endFrom_integers {ms : List Nat} (hms : ∀ m ∈ ms, (Der.unsigned m).length ≤ VECTOR_MAX)
    (pre : List Byte) :
    endFrom (pre ++ (ms.map Der.integer).flatten) (pre.length + 1) =
      some ((pre ++ (ms.map Der.integer).flatten).length + 1) := by
  induction ms generalizing pre with
  | nil =>
    rw [endFrom, if_neg (by simp)]
    simp
  | cons m ms ih =>
    have hrest := ih (fun x hx => hms x (List.mem_cons_of_mem m hx)) (pre ++ Der.integer m)
    rw [List.append_assoc, List.length_append] at hrest
    rw [List.map_cons, List.flatten_cons, endFrom_integer (hms m List.mem_cons_self) pre, hrest]

/-- and found at the end of the sequence. -/
theorem endOfIntegers_sequence {ms : List Nat} (hms : ∀ m ∈ ms, (Der.unsigned m).length ≤ VECTOR_MAX)
    (hlen : (ms.map Der.integer).flatten.length < 256 ^ 126) :
    endOfIntegers (Der.element 0x30 (ms.map Der.integer).flatten) =
      some ((Der.element 0x30 (ms.map Der.integer).flatten).length + 1) := by
  have hlength := readLen_lengthOctets hlen [0x30] (ms.map Der.integer).flatten
  have hbody := endFrom_integers hms
    ([0x30] ++ Der.lengthOctets (ms.map Der.integer).flatten.length)
  simp only [List.cons_append, List.length_cons, List.length_nil, List.nil_append,
    Nat.add_comm _ 1, ← Nat.add_assoc] at hlength hbody
  rw [endOfIntegers, Der.element, hlength]
  simp only [List.length_cons, Nat.add_comm _ 1, ← Nat.add_assoc]
  exact hbody

/-- A vector of a list that is short enough in all. -/
theorem nonzeros_le_of_mem {xs : List (List Byte)} (h : (xs.map List.length).sum < 2 ^ 31)
    {x : List Byte} (hx : x ∈ xs) : nonzeros x ≤ INTEGER_MAX ∧ (Der.unsigned (Der.value x)).length ≤ 2 ^ 31 := by
  have hlength : x.length ≤ (xs.map List.length).sum :=
    List.single_le_sum (fun _ _ => Nat.zero_le _) _ (List.mem_map_of_mem hx)
  have hcount := nonzeros_le_length x
  have hunsigned := Der.length_unsigned_le (Der.value_lt x)
  unfold INTEGER_MAX
  omega

/-- What is written of a list of vectors is the DER of its numbers; reading that gives the
vectors without the zeros they began with, and ends where the encoding does. -/
theorem derIntegers_derSequence {xs : List (List Byte)} (h : (xs.map List.length).sum < 2 ^ 31)
    (hvector : (derSequence (xs.map derInteger)).length ≤ VECTOR_MAX) :
    derSequence (xs.map derInteger) = Der.integers (xs.map Der.value) ∧
      derIntegers (derSequence (xs.map derInteger)) = some (xs.map stripped) ∧
      endOfIntegers (derSequence (xs.map derInteger)) =
        some ((derSequence (xs.map derInteger)).length + 1) := by
  have hparts : xs.map derInteger = (xs.map Der.value).map Der.integer := by
    rw [List.map_map]
    exact List.map_congr_left fun x hx => derInteger_eq (nonzeros_le_of_mem h hx).1
  have hcountable : ∀ m ∈ xs.map Der.value, Countable m := by
    intro m hm
    obtain ⟨x, hx, rfl⟩ := List.mem_map.mp hm
    obtain ⟨hcount, hlength⟩ := nonzeros_le_of_mem h hx
    refine ⟨Nat.le_trans hlength (by decide), ?_⟩
    rw [nonzeros_unsigned, Der.octets_value]
    exact Nat.le_trans (List.dropWhile_sublist _).countP_le hcount
  rw [hparts, derSequence_eq] at hvector ⊢
  have hinside : ((xs.map Der.value).map Der.integer).flatten.length < 256 ^ 126 := by
    refine Nat.lt_of_le_of_lt (Nat.le_trans ?_ hvector) (by decide)
    simp only [Der.element, List.length_cons, List.length_append]
    omega
  refine ⟨?_, ?_, endOfIntegers_sequence (fun m hm => (hcountable m hm).length) hinside⟩
  · rw [Der.integers, List.flatMap_def]
  · rw [derIntegers_sequence hcountable hinside, List.map_map]
    exact congrArg some (List.map_congr_left fun x _ => (stripped_eq_minimal x).symm)

end R

/-! ### The integers of a key -/

/-- The members of a private key. -/
def privateMembers (k : Rsa.PrivateKey) : List (String × Member) :=
  [("e", .bytes (R.minimal k.e)), ("n", .bytes (R.minimal k.n)), ("p", .bytes (R.minimal k.p)),
    ("q", .bytes (R.minimal k.q)), ("d", .bytes (R.minimal k.d)), ("dp", .bytes (R.minimal k.dp)),
    ("dq", .bytes (R.minimal k.dq)), ("qi", .bytes (R.minimal k.qi))]

/-- The members of a public key. -/
def publicMembers (k : Rsa.PublicKey) : List (String × Member) :=
  [("e", .bytes (R.minimal k.e)), ("n", .bytes (R.minimal k.n))]

/-- `crypt_rsa_key`, of the members of a list, makes an object on exactly this key. -/
def Rebuilds (L : StoreLaw O StoredKey) (T : KeyTheory O) (key : RefKey) (l : KeyList) : Prop :=
  ∀ (w : World) (S : KeyStore StoredKey) (st : RState) (arg : String → Sexp),
    0 < w.refcount → ArgumentsOf l w.mem arg →
    Meets L w S (cryptRsaKey (arg "n") (arg "e") (arg "d") (arg "p") (arg "q") (arg "dp") (arg "dq")
      (arg "qi") st) fun r _ _ => AcceptsObject T key r

/-- A list of the key's members, of which the key is made again. -/
def ListsKey (L : StoreLaw O StoredKey) (T : KeyTheory O) (key : RefKey)
    (members : List (String × Member)) (r : Except Condition KeyList × RState) : Prop :=
  ∃ l, r.1 = .ok l ∧ l.data = members ∧ Rebuilds L T key l

/-- The numbers of a key can be counted by `cumsum`. -/
theorem countable_of_size {n : Nat} (hn : n.size ≤ 4096) : R.Countable n := by
  have hlt : n < 256 ^ 512 := Der.lt_of_size_le hn
  exact (R.Fits.of_lt (n := 512) (by decide) hlt).countable (by decide)

/-- The reader reads the integers of a key. -/
theorem derIntegersOf_integers {l : List Nat} (hfew : l.length ≤ 16) (h : ∀ n ∈ l, n.size ≤ 4096) :
    derIntegersOf (Der.integers l) = .ok (l.map R.minimal) := by
  have hlen := Der.length_integers_lt hfew h
  have hinside : (l.map Der.integer).flatten.length < 256 ^ 126 := by
    refine Nat.lt_of_le_of_lt ?_ (show 256 ^ 2 < 256 ^ 126 by decide)
    rw [Der.integers, Der.element, List.flatMap_def, List.length_cons, List.length_append] at hlen
    omega
  unfold derIntegersOf
  rw [Der.integers, List.flatMap_def, R.derIntegers_sequence (fun n hn => countable_of_size (h n hn)) hinside]

section
variable {T : KeyTheory O} {L : StoreLaw O StoredKey} {live : List (Nat × Nat)} {w : World}
  {S : KeyStore StoredKey} {handle : ZucPkey} {key : RefKey}

/-- What a list has under a name is an argument that stands for its number. -/
theorem rawInteger_of_argument {l : KeyList} {m : Memory} {arg : String → Sexp}
    (h : ArgumentsOf l m arg) {name : String} {n : Nat}
    (hname : l.data.lookup name = some (.bytes (R.minimal n))) : RawInteger m (arg name) n := by
  obtain ⟨hraw, hbytes⟩ := h.raw hname
  exact ⟨hraw, by rw [hbytes, R.value_minimal]⟩

/-- `crypt_rsa_key` makes the public key of a list again, -/
theorem rebuilds_public (hL : L.Implies T.law) (hV : L.Implies (vectorLaw [])) (hT : RsaTheory T)
    {k : Rsa.PublicKey} (hkey : T.Genuine (rsaPublicRef k)) (hfits : (rsaPublicRef k).Fits) {l : KeyList}
    (hdata : l.data = publicMembers k) : Rebuilds L T (rsaPublicRef k) l := by
  intro w S st arg hready harg
  have hnull : ∀ name ∈ ["d", "p", "q", "dp", "dq", "qi"], arg name = .null := by
    intro name hname
    refine harg.null ?_
    rw [hdata]
    simp only [List.mem_cons, List.not_mem_nil, or_false] at hname
    rcases hname with rfl | rfl | rfl | rfl | rfl | rfl <;> rfl
  have hn : RawInteger w.mem (arg "n") k.n := rawInteger_of_argument harg (by rw [hdata]; rfl)
  have he : RawInteger w.mem (arg "e") k.e := rawInteger_of_argument harg (by rw [hdata]; rfl)
  rw [hnull "d" (by simp), hnull "p" (by simp), hnull "q" (by simp), hnull "dp" (by simp),
    hnull "dq" (by simp), hnull "qi" (by simp)]
  exact (meets_cryptRsaKey_public hL hV hT hready hn he hkey st).mono fun r _ _ hr => hr.mpr hfits

/-- and the private key. -/
theorem rebuilds_private (hL : L.Implies T.law) (hV : L.Implies (vectorLaw [])) (hT : RsaTheory T)
    {k : Rsa.PrivateKey} (hkey : T.Genuine (rsaPrivateRef k)) (hfits : (rsaPrivateRef k).Fits)
    {l : KeyList} (hdata : l.data = privateMembers k) : Rebuilds L T (rsaPrivateRef k) l := by
  intro w S st arg hready harg
  have hpart : ∀ name n, (privateMembers k).lookup name = some (.bytes (R.minimal n)) →
      RawInteger w.mem (arg name) n := fun name n hname =>
    rawInteger_of_argument harg (by rw [hdata]; exact hname)
  have hparts : RawPrivateKey w.mem (arg "n") (arg "e") (arg "d") (arg "p") (arg "q") (arg "dp")
      (arg "dq") (arg "qi") k :=
    ⟨hpart _ _ rfl, hpart _ _ rfl, hpart _ _ rfl, hpart _ _ rfl, hpart _ _ rfl, hpart _ _ rfl,
      hpart _ _ rfl, hpart _ _ rfl⟩
  exact (meets_cryptRsaKey_private hL hV hT hready hparts hkey st).mono fun r _ _ hr => hr.mpr hfits

/-- An RSA key is short enough for the vector it is written into. -/
theorem Holds.material_le (hT : RsaTheory T) (h : Holds T handle key) (hrsa : handle.type = .rsa) :
    key.material.length ≤ ZUC_PKEY_MAX_WRITE_SIZE := by
  have hgenuine := h.genuine
  have hpair := h.type_eq_rsa.mp hrsa
  rw [isRsa_publicHalf] at hpair
  refine Nat.le_trans h.fits ?_
  unfold exportSize psaExportKeyOutputSize psaExportPublicKeyOutputSize ZUC_PKEY_MAX_WRITE_SIZE
  unfold KeyTheory.Genuine at hgenuine
  cases htype : key.type with
  | rsaPublicKey =>
    rw [htype] at hgenuine
    obtain ⟨k, hk, rfl⟩ := hT.of_public hgenuine
    show k.n.size / 8 + 5 + 11 ≤ 8192
    omega
  | rsaKeyPair =>
    rw [htype] at hgenuine
    obtain ⟨k, hk, rfl⟩ := hT.of_private hgenuine
    show 9 * ((k.n.size / 2 + 1) / 8 + 5) + 14 ≤ 8192
    omega
  | _ => exact absurd hpair (by simp [htype, PsaKeyType.isRsa])

/-- A public RSA handle holds a public key, -/
theorem rsaPublicKey_of_holds (h : Holds T handle key) (hrsa : handle.type = .rsa)
    (hkind : handle.isPrivate = false) : key.type = .rsaPublicKey := by
  have hfamily := h.type_eq_rsa.mp hrsa
  have hpublic := h.kind.symm.trans hkind
  rw [isRsa_publicHalf] at hfamily
  cases htype : key.type <;> simp_all [PsaKeyType.isRsa, PsaKeyType.isKeyPair]

/-- and a private one a pair. -/
theorem rsaKeyPair_of_holds (h : Holds T handle key) (hrsa : handle.type = .rsa)
    (hkind : handle.isPrivate = true) : key.type = .rsaKeyPair := by
  have hfamily := h.type_eq_rsa.mp hrsa
  have hpair := h.kind.symm.trans hkind
  rw [isRsa_publicHalf] at hfamily
  cases htype : key.type <;> simp_all [PsaKeyType.isRsa, PsaKeyType.isKeyPair]

/-- An object of a handle passes for a key. -/
theorem checkKeyObject_objectOf (handle : ZucPkey) : checkKeyObject (objectOf handle) = .ok () := by
  have hclass : (objectOf handle).inherits "crypt_key" ∨ (objectOf handle).inherits "crypt_pubkey" := by
    rw [inherits_key, inherits_pubkey]
    cases handle.isPrivate <;> simp
  have hinfo : pkeyInfo (objectOf handle).handle =
      .ok ⟨handle.type, handle.bits, handle.isPrivate⟩ := rfl
  unfold checkKeyObject
  rw [if_neg (not_not.mpr hclass), hinfo]
  rfl

/-- `write_key` gives the material of an RSA key. -/
theorem rmeets_writeKey (hL : L.Implies T.law) (hT : RsaTheory T) (h : Holds T handle key)
    (hready : 0 < w.refcount) (hrsa : handle.type = .rsa) (st : RState) :
    RMeets L live w S ((writeKey (objectOf handle) .pkcs1Der false >>= vectorBytes) st)
      fun r w' _ live' => r = (.ok key.material, st) ∧ w'.refcount = w.refcount ∧
        ∀ v ∈ live, v ∈ live' := by
  unfold writeKey
  rw [checkKeyObject_objectOf, RFun.bind_assoc, RFun.check_ok_bind, RFun.bind_assoc, RFun.native_bind]
  refine RMeets.bind ((rmeets_zucryptPkeyWrite_pkcs1 hL h hready hrsa (h.material_le hT hrsa)).mono ?_)
  rintro r w' S' live' ⟨hcount, hlive, hgives⟩
  unfold GivesVector at hgives
  rw [if_pos rfl] at hgives
  obtain ⟨v, rfl, hv⟩ := hgives
  have hvalue : valueOr ⟨.ok, v⟩ (some "rsa") = .ok v := rfl
  rw [hvalue, RFun.check_ok_bind]
  unfold vectorBytes
  rw [RFun.native_bind]
  refine RMeets.bind (RMeets.of_done rfl (RMeets.pure ⟨?_, hcount, hlive⟩))
  rw [hv.bytes]

/-- `as.list` of a public RSA key gives its integers, and the key is made of them again. -/
theorem rmeets_asList_public (hL : L.Implies T.law) (hV : L.Implies (vectorLaw [])) (hT : RsaTheory T)
    {k : Rsa.PublicKey} (h : Holds T handle (rsaPublicRef k)) (hready : 0 < w.refcount) (st : RState) :
    RMeets L live w S (asListCryptPubkey (objectOf handle) st) fun r _ _ _ =>
      ListsKey L T (rsaPublicRef k) (publicMembers k) r := by
  have hrsa : handle.type = .rsa := h.type_eq_rsa.mpr (isRsa_publicHalf T _)
  have hinfo : pkeyInfo (objectOf handle).handle =
      .ok ⟨handle.type, handle.bits, handle.isPrivate⟩ := rfl
  obtain ⟨k', hk', hsame⟩ := hT.of_public h.genuine
  have hsize : k.n.size ≤ 4096 := by
    rw [show k.n.size = k'.n.size from congrArg RefKey.bits hsame]
    exact hk'
  have hread : derIntegersOf (rsaPublicRef k).material = .ok [R.minimal k.n, R.minimal k.e] := by
    refine derIntegersOf_integers (l := [k.n, k.e]) (by simp) fun n hn => ?_
    rcases List.mem_pair.mp hn with rfl | rfl
    · exact hsize
    · exact Nat.le_trans (Nat.size_le_size (Nat.le_of_lt k.exponent_lt)) hsize
  have hnames : setNames ["n", "e"] [R.minimal k.n, R.minimal k.e] =
      .ok [("n", .bytes (R.minimal k.n)), ("e", .bytes (R.minimal k.e))] := rfl
  unfold asListCryptPubkey
  rw [hinfo, RFun.check_ok_bind]
  simp only [hrsa, ne_eq, not_true_eq_false, if_false]
  refine RMeets.seq (rmeets_writeKey hL hT h hready hrsa st) fun r w' S' live' hr => ?_
  obtain ⟨rfl, hcount, -⟩ := hr
  simp only
  rw [hread, RFun.check_ok_bind, hnames, RFun.check_ok_bind]
  exact RMeets.pure ⟨_, rfl, rfl, rebuilds_public hL hV hT h.genuine h.fits rfl⟩

/-- `as.list` of a private RSA key does so if the public half fits, and else fails. -/
theorem rmeets_asList_private (hL : L.Implies T.law) (hV : L.Implies (vectorLaw [])) (hT : RsaTheory T)
    {k : Rsa.PrivateKey} (h : Holds T handle (rsaPrivateRef k)) (hready : 0 < w.refcount)
    (st : RState) :
    RMeets L live w S (asListCryptKey (objectOf handle) st) fun r _ _ _ =>
      ListsKey L T (rsaPrivateRef k) (privateMembers k) r ↔ (T.publicHalf (rsaPrivateRef k)).Fits := by
  have hrsa : handle.type = .rsa := h.type_eq_rsa.mpr (isRsa_publicHalf T _)
  have hinfo : pkeyInfo (objectOf handle).handle =
      .ok ⟨handle.type, handle.bits, handle.isPrivate⟩ := rfl
  obtain ⟨k', hk', hsame⟩ := hT.of_private h.genuine
  have hsize : k.n.size ≤ 4096 := by
    rw [show k.n.size = k'.n.size from congrArg RefKey.bits hsame]
    exact hk'
  have hread : derIntegersOf (rsaPrivateRef k).material =
      .ok ([0, k.n, k.e, k.d, k.p, k.q, k.dp, k.dq, k.qi].map R.minimal) :=
    derIntegersOf_integers (by simp) (k.size_le hsize)
  have hnames : setNames ["version", "n", "e", "d", "p", "q", "dp", "dq", "qi"]
      ([0, k.n, k.e, k.d, k.p, k.q, k.dp, k.dq, k.qi].map R.minimal) =
      .ok (["version", "n", "e", "d", "p", "q", "dp", "dq", "qi"].zip
        (([0, k.n, k.e, k.d, k.p, k.q, k.dp, k.dq, k.qi].map R.minimal).map .bytes)) := rfl
  unfold asListCryptKey
  rw [hinfo, RFun.check_ok_bind]
  simp only [hrsa, ne_eq, not_true_eq_false, if_false]
  refine RMeets.seq (rmeets_writeKey hL hT h hready hrsa st) fun r w' S' live' hr => ?_
  obtain ⟨rfl, hcount, -⟩ := hr
  simp only
  rw [hread, RFun.check_ok_bind, hnames, RFun.check_ok_bind]
  refine RMeets.seq (rmeets_publicOf hL h.toLoads (hcount ▸ hready) st) fun r w₁ S₁ live₁ hr => ?_
  obtain ⟨-, -, -, hr⟩ := hr
  -- the public half is asked for last, and is there if it fits
  split at hr
  · rename_i hfits
    obtain ⟨pub, rfl, -⟩ := hr
    refine RMeets.pure (iff_of_true ⟨_, rfl, rfl, ?_⟩ hfits)
    exact rebuilds_private hL hV hT h.genuine h.fits rfl
  · rename_i hlong
    subst hr
    refine RMeets.pure (iff_of_false ?_ hlong)
    rintro ⟨l, hok, -⟩
    exact absurd hok (by simp)

/-! ### There and back -/

theorem asList_objectOf (handle : ZucPkey) : (asList (objectOf handle) : RFun O KeyList) =
    if handle.isPrivate then asListCryptKey (objectOf handle) else asListCryptPubkey (objectOf handle) := by
  unfold asList
  simp only [inherits_key]

/-- **Lists of integers go there and back.**  The encoding of a list of vectors is the DER
of their numbers; the reader gives them back without the zeros they began with, and ends
where the encoding does.

`as.list` of an RSA key gives its integers, and `crypt_rsa_key` makes the same key of them:
of a public key always, and of a private key exactly if its public half fits the buffer it
is exported into, since `as.list` takes that half too. -/
theorem rsa_integers_roundTrip (hL : L.Implies T.law) (hV : L.Implies (vectorLaw [])) (hT : RsaTheory T) :
    (∀ xs : List (List Byte), (xs.map List.length).sum < 2 ^ 31 →
      (R.derSequence (xs.map R.derInteger)).length ≤ R.VECTOR_MAX →
      R.derSequence (xs.map R.derInteger) = Der.integers (xs.map Der.value) ∧
        R.derIntegers (R.derSequence (xs.map R.derInteger)) = some (xs.map R.stripped) ∧
        R.endOfIntegers (R.derSequence (xs.map R.derInteger)) =
          some ((R.derSequence (xs.map R.derInteger)).length + 1)) ∧
    (∀ handle, Made L handle → handle.type = .rsa → handle.isPrivate = false →
      ∃ k, Loads T handle (rsaPublicRef k) ∧ ∀ live w S st, 0 < w.refcount →
        RMeets L live w S (asList (objectOf handle) st) fun r _ _ _ =>
          ListsKey L T (rsaPublicRef k) (publicMembers k) r) ∧
    (∀ handle, Made L handle → handle.type = .rsa → handle.isPrivate = true →
      ∃ k, Loads T handle (rsaPrivateRef k) ∧ ∀ live w S st, 0 < w.refcount →
        RMeets L live w S (asList (objectOf handle) st) fun r _ _ _ =>
          ListsKey L T (rsaPrivateRef k) (privateMembers k) r ↔
            (T.publicHalf (rsaPrivateRef k)).Fits) := by
  refine ⟨fun xs => R.derIntegers_derSequence, ?_, ?_⟩
  · intro handle hmade hrsa hkind
    obtain ⟨key, h⟩ := hmade.holds hL
    have htype : key.type = .rsaPublicKey := rsaPublicKey_of_holds h hrsa hkind
    have hread : T.read key.type key.material = some key := h.genuine
    -- the key is one that R can tell by its integers
    obtain ⟨k, -, rfl⟩ := hT.of_public (htype ▸ hread)
    refine ⟨k, h.toLoads, fun live w S st hready => ?_⟩
    rw [asList_objectOf, hkind]
    exact rmeets_asList_public hL hV hT h hready st
  · intro handle hmade hrsa hkind
    obtain ⟨key, h⟩ := hmade.holds hL
    have htype : key.type = .rsaKeyPair := rsaKeyPair_of_holds h hrsa hkind
    have hread : T.read key.type key.material = some key := h.genuine
    obtain ⟨k, -, rfl⟩ := hT.of_private (htype ▸ hread)
    refine ⟨k, h.toLoads, fun live w S st hready => ?_⟩
    rw [asList_objectOf, hkind]
    exact rmeets_asList_private hL hV hT h hready st

end

/-! ### A key that is not listed -/

theorem rsaPrivateRef_inj {k k' : Rsa.PrivateKey} (hn : k'.n.size ≤ 4096)
    (h : rsaPrivateRef k = rsaPrivateRef k') : k = k' := by
  have hbits : k.n.size = k'.n.size := congrArg RefKey.bits h
  have hder : k.der = k'.der := congrArg RefKey.material h
  have hread := k.read_der (hbits ▸ hn)
  rw [hder, k'.read_der hn] at hread
  exact (Option.some.inj hread).symm

theorem rsaKeyLaw_vectors : rsaKeyLaw.Implies (vectorLaw []) := StoreLaw.and_right _ _

/-- The integers 0, 1 and 128, with zeros before them, and the lists of a key of 1024 bits. -/
theorem rsa_integers_roundTrip_known :
    R.derIntegers (R.derSequence ([[0, 0], [0, 1], [128]].map R.derInteger)) =
        some [[0], [1], [128]] ∧
      ∃ handle, handle.isPrivate = true ∧
        RMeets rsaKeyLaw [] readyWorld KeyState.initial.store (asList (objectOf handle) noConnections)
          fun r _ _ _ => ListsKey rsaKeyLaw referenceTheory (rsaPrivateRef Rsa.usualKey)
            (privateMembers Rsa.usualKey) r := by
  have hround := rsa_integers_roundTrip rsaKeyLaw_theory rsaKeyLaw_vectors referenceTheory_rsa
  refine ⟨(hround.1 [[0, 0], [0, 1], [128]] (by decide) (by decide)).2.1, ?_⟩
  obtain ⟨handle, hmade, hkey⟩ := exists_private_handle Rsa.usualKey size_usualKey fits_usualKey
  have hkind : handle.isPrivate = true := hkey.kind
  have hrsa : handle.type = .rsa := hkey.type_eq_rsa.mpr (isRsa_publicHalf _ _)
  obtain ⟨k, hk, hlists⟩ := hround.2.2 handle hmade hrsa hkind
  have hsame : rsaPrivateRef k = rsaPrivateRef Rsa.usualKey := hk.unique hkey
  have hhalf : referenceTheory.publicHalf (rsaPrivateRef k) =
      rsaPublicRef Rsa.usualKey.toPublicKey := by
    rw [hsame]
    exact referenceTheory_rsa.publicHalf _ size_usualKey
  refine ⟨handle, hkind, (hlists [] readyWorld _ noConnections (by decide)).mono ?_⟩
  intro r w' S' live' hr
  have hk' : k = Rsa.usualKey := rsaPrivateRef_inj size_usualKey hsame
  subst hk'
  refine hr.mpr ?_
  rw [hhalf]
  exact fits_usualKey_public

/-- Writing a private key in PKCS#1 makes no vector. -/
theorem vectorless_zucPkeyWrite_pkcs1 {handle : ZucPkey} (hrsa : handle.type = .rsa)
    (hkind : handle.isPrivate = true) (out outSize : Nat) (outLen : SizeCell) :
    Vectorless (zucPkeyWrite (some handle) .pkcs1Der false out outSize outLen : Adapter O _) := by
  have hzero : ∀ p n, Vectorless (zucSecureZero p n : Adapter O Unit) := fun p n =>
    .ite (.pure _) (.of_done fun _ => ⟨_, _, rfl⟩)
  have hencode : Vectorless (rsaEncode handle .pkcs1Der true : Adapter O _) := by
    refine (vectorless_mallocBytes _).bind fun der => ?_
    cases der <;> exact .pure _
  have hwrite : ∀ e : Encoding, Vectorless (writeEncoding e .pkcs1Der out outSize : Adapter O _) := by
    intro e
    unfold writeEncoding
    rw [if_pos (.inl rfl)]
    exact .ite (.pure _) ((Vectorless.of_done fun _ => ⟨_, _, rfl⟩).bind fun _ => .pure _)
  refine vectorless_watched ?_
  unfold pkeyWriteImpl
  simp only [hkind, hrsa, ne_eq, not_true_eq_false, if_false, Bool.not_false, Bool.and_true]
  refine .ite (.pure _) ((Vectorless.of_done fun _ => ⟨_, _, rfl⟩).bind fun _ => .ite (.pure _) ?_)
  refine hencode.bind fun e => ?_
  cases e with
  | error st => exact .pure _
  | ok e =>
    refine (hwrite e).bind fun r => (vectorless_freeBytes _).bind fun _ => .ite ?_ (.pure _)
    exact (hzero _ _).bind fun _ => .pure _

/-- There is a run of `write_key`, of a private key. -/
theorem exists_writeKey {handle : ZucPkey} {key : RefKey} (h : Holds referenceTheory handle key)
    (hrsa : handle.type = .rsa) (hkind : handle.isPrivate = true) {w : World}
    (hready : 0 < w.refcount) (st : RState) :
    ∃ r w' s' live', RanFresh rsaKeyLaw [] w KeyState.initial.store
      ((writeKey (objectOf handle) .pkcs1Der false >>= vectorBytes) st) r w' (KeyState.store s') live' := by
  have hsize := h.material_le referenceTheory_rsa hrsa
  -- two vectors far enough from each other, and from the end of memory
  have hplace : ∀ n, n ≤ ZUC_PKEY_MAX_WRITE_SIZE → ∀ k, k ≤ 8192 →
      ValidBuffer (vectorBase + k) n ∧ (vectorBase + k) + n < sizeMax1 := by
    intro n hn k hk
    unfold ValidBuffer NULL vectorBase sizeMax1
    unfold ZUC_PKEY_MAX_WRITE_SIZE at hn
    omega
  have hlaw : ∀ n p, ValidBuffer p n → rsaKeyLaw.elsewhere ⟨.allocRaw n, p⟩ := fun n p hp =>
    ⟨⟨trivial, trivial⟩, fun _ => ⟨hp, by simp⟩⟩
  obtain ⟨r, w₁, s₁, hran⟩ := exists_ran_state (T := referenceTheory)
    (F := rsaOperations knownPrimitives) (fun _ => rfl) noVectors_below
    (zucPkeyWrite (some handle) .pkcs1Der false (vectorBase + 0) ZUC_PKEY_MAX_WRITE_SIZE (some 0)) w .initial
  have hwritten := (meets_zucPkeyWrite_filled (S := KeyState.initial.store) rsaKeyLaw_theory h hready
    hrsa hsize (hplace 0 (by decide) 0 (by decide)).1.1).of_ran hran
  obtain ⟨rfl, -⟩ := Prod.mk.inj hwritten
  have hzero : ∀ (p n : Nat) (w : World) live, RanFresh rsaKeyLaw live w (KeyState.store s₁)
      (zucSecureZero p n) () { w with mem := zeroed w.mem p n } (KeyState.store s₁) live := by
    intro p n w live
    refine RanFresh.of_done ?_
    unfold zucSecureZero zeroed
    split <;> rfl
  unfold writeKey
  rw [checkKeyObject_objectOf, RFun.bind_assoc, RFun.check_ok_bind, RFun.bind_assoc, RFun.native_bind]
  have hbuf := (hplace _ (Nat.le_refl _) 0 (by decide)).1
  have hout := (hplace _ hsize 8192 (by decide)).1
  refine ⟨_, _, s₁, _, RanFresh.bind (RanFresh.bind
    (RanFresh.allocRaw hbuf (by simp) (hlaw _ _ hbuf)) (RanFresh.bind
      (RanFresh.of_vectorless (vectorless_zucPkeyWrite_pkcs1 hrsa hkind _ _ _) hran)
      (RanFresh.bind (RanFresh.allocRaw hout ?_ (hlaw _ _ hout)) (RanFresh.bind (RanFresh.of_done rfl)
        (RanFresh.bind (RanFresh.of_done rfl) (RanFresh.bind (hzero _ _ _ _) (RanFresh.pure _)))))))
    (RanFresh.of_done rfl)⟩
  intro v hv
  obtain rfl := List.mem_singleton.mp hv
  exact .inr (.inl (Nat.le_refl _))

/-- And one of `public_of`. -/
theorem exists_publicOf (handle : ZucPkey) (live : List (Nat × Nat)) (w : World) (s : KeyState)
    (st : RState) : ∃ r w' s' live', RanFresh rsaKeyLaw live w s.store
      (publicOf (objectOf handle) st) r w' (KeyState.store s') live' := by
  have hinfo : pkeyInfo (objectOf handle).handle =
      .ok ⟨handle.type, handle.bits, handle.isPrivate⟩ := rfl
  obtain ⟨res, w₁, s₁, hran⟩ := exists_ran_state (T := referenceTheory)
    (F := rsaOperations knownPrimitives) (fun _ => rfl) noVectors_below
    (zucPkeyPublic (some handle) true) w s
  unfold publicOf
  rw [hinfo, RFun.check_ok_bind, RFun.native_bind]
  have hpublic : RanFresh rsaKeyLaw live w s.store (zucPkeyPublic (some handle) true) res w₁ s₁.store live :=
    RanFresh.of_vectorless (vectorless_zucPkeyPublic handle) hran
  have hrest : ∃ r, RanFresh rsaKeyLaw live w₁ s₁.store
      ((if res.1 ≠ .ok then RFun.raise (abortNative res.1 (some "rsa"))
        else RFun.check (newKey res.2)) st) r w₁ s₁.store live := by
    by_cases hok : res.1 ≠ .ok
    · rw [if_pos hok]
      exact ⟨_, RanFresh.of_done rfl⟩
    · rw [if_neg hok]
      exact ⟨_, RanFresh.of_done rfl⟩
  obtain ⟨r, hrest⟩ := hrest
  exact ⟨r, w₁, s₁, live, RanFresh.bind hpublic hrest⟩

/-- So there is one of `as.list`. -/
theorem exists_asList {handle : ZucPkey} {k : Rsa.PrivateKey}
    (h : Holds referenceTheory handle (rsaPrivateRef k)) (hsize : k.n.size ≤ 4096) :
    ∃ r w' S' live', RanFresh rsaKeyLaw [] readyWorld KeyState.initial.store
      (asListCryptKey (objectOf handle) noConnections) r w' S' live' := by
  have hkind : handle.isPrivate = true := h.kind
  have hrsa : handle.type = .rsa := h.type_eq_rsa.mpr (isRsa_publicHalf _ _)
  have hinfo : pkeyInfo (objectOf handle).handle =
      .ok ⟨handle.type, handle.bits, handle.isPrivate⟩ := rfl
  have hready : 0 < readyWorld.refcount := by decide
  obtain ⟨r, w₁, s₁, live₁, hwrite⟩ := exists_writeKey h hrsa hkind hready noConnections
  obtain ⟨rfl, -, -⟩ := (rmeets_writeKey rsaKeyLaw_theory referenceTheory_rsa h hready hrsa
    noConnections).of_ran hwrite
  obtain ⟨r, w₂, s₂, live₂, hpublic⟩ := exists_publicOf handle live₁ w₁ s₁ noConnections
  have hread : derIntegersOf (rsaPrivateRef k).material =
      .ok ([0, k.n, k.e, k.d, k.p, k.q, k.dp, k.dq, k.qi].map R.minimal) :=
    derIntegersOf_integers (by simp) (k.size_le hsize)
  have hnames : setNames ["version", "n", "e", "d", "p", "q", "dp", "dq", "qi"]
      ([0, k.n, k.e, k.d, k.p, k.q, k.dp, k.dq, k.qi].map R.minimal) =
      .ok (["version", "n", "e", "d", "p", "q", "dp", "dq", "qi"].zip
        (([0, k.n, k.e, k.d, k.p, k.q, k.dp, k.dq, k.qi].map R.minimal).map .bytes)) := rfl
  unfold asListCryptKey
  rw [hinfo, RFun.check_ok_bind]
  simp only [hrsa, ne_eq, not_true_eq_false, if_false]
  have hrest : ∃ r' w' S' live', RanFresh rsaKeyLaw live₁ w₁ (KeyState.store s₁)
      ((RFun.check (derIntegersOf (rsaPrivateRef k).material) >>= fun v =>
        RFun.check (setNames ["version", "n", "e", "d", "p", "q", "dp", "dq", "qi"] v) >>= fun v =>
        publicOf (objectOf handle) >>= fun pubkey =>
        Pure.pure (⟨keyTypeName .rsa, handle.bits, some pubkey,
          pick v ["e", "n", "p", "q", "d", "dp", "dq", "qi"]⟩ : KeyList)) noConnections) r' w' S' live' := by
    rw [hread, RFun.check_ok_bind, hnames, RFun.check_ok_bind]
    obtain ⟨r, st⟩ := r
    cases r with
    | error c => exact ⟨_, _, _, _, RanFresh.seq_error hpublic⟩
    | ok pubkey => exact ⟨_, _, _, _, RanFresh.seq_ok hpublic (RanFresh.pure _)⟩
  obtain ⟨r', w', S', live', hrun⟩ := hrest
  exact ⟨r', w', S', live', RanFresh.seq_ok hwrite hrun⟩

/-- A private key whose exponent is long is not listed. -/
theorem rsa_integers_roundTrip_missed : ∃ handle, Made rsaKeyLaw handle ∧
    Loads referenceTheory handle (rsaPrivateRef Rsa.wideKey) ∧
    ¬ RMeets rsaKeyLaw [] readyWorld KeyState.initial.store
      (asList (objectOf handle) noConnections) fun r _ _ _ =>
        ListsKey rsaKeyLaw referenceTheory (rsaPrivateRef Rsa.wideKey) (privateMembers Rsa.wideKey) r := by
  obtain ⟨handle, hmade, hkey⟩ := exists_private_handle Rsa.wideKey size_wideKey fits_wideKey
  have hkind : handle.isPrivate = true := hkey.kind
  have hholds : Holds referenceTheory handle (rsaPrivateRef Rsa.wideKey) := ⟨hkey, fits_wideKey⟩
  have hhalf : referenceTheory.publicHalf (rsaPrivateRef Rsa.wideKey) =
      rsaPublicRef Rsa.wideKey.toPublicKey := referenceTheory_rsa.publicHalf _ size_wideKey
  refine ⟨handle, hmade, hkey, fun hlists => ?_⟩
  obtain ⟨r, w', S', live', hran⟩ := exists_asList hholds size_wideKey
  have hiff : RMeets rsaKeyLaw [] readyWorld KeyState.initial.store
      (asListCryptKey (objectOf handle) noConnections) fun r _ _ _ =>
        ListsKey rsaKeyLaw referenceTheory (rsaPrivateRef Rsa.wideKey) (privateMembers Rsa.wideKey) r ↔
          (referenceTheory.publicHalf (rsaPrivateRef Rsa.wideKey)).Fits :=
    rmeets_asList_private rsaKeyLaw_theory rsaKeyLaw_vectors referenceTheory_rsa hholds (by decide)
      noConnections
  rw [asList_objectOf, hkind] at hlists
  have hfits := (hiff.of_ran hran).mp (hlists.of_ran hran)
  rw [hhalf] at hfits
  exact not_fits_wideKey hfits

end Zucrypt
