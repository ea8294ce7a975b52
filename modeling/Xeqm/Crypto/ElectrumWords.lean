import Xeqm.Crypto.Types

/-!
# Mnemonic seeds

`words_to_bytes` of `mnemonics/electrum-words.cpp`. A seed is given as the words between its
spaces, and a word by its bytes.
-/

namespace Xeqm.ElectrumWords

open List

abbrev Word := List UInt8

/-- `utf8prefix`: the first characters of a word. -/
def utf8prefix : ℕ → Word → Word
  | count + 1, byte :: rest =>
    let continues (b : UInt8) : Bool := b &&& 0xc0 = 0x80
    byte :: (rest.takeWhile continues ++ utf8prefix count (rest.dropWhile continues))
  | _, _ => []

/-- `Language::Base`. -/
structure Language where
  wordList : List Word
  uniquePrefixLength : ℕ

/-- What the library and the locale provide. -/
structure Runtime where
  /-- `utf8canonical`: a word in lower case. -/
  canonical : Word → Word
  /-- `boost::crc_32_type`. -/
  crc32 : List UInt8 → UInt32

section

variable (rt : Runtime)

variable (language : Language)

/-- The first characters of a word, if it has more of them. -/
def Language.trim (word : Word) : Word :=
  if word.length > language.uniquePrefixLength then utf8prefix language.uniquePrefixLength word
  else word

/-- Finds a word in a map from words to their indices. Of those that are the same, the map has the
first one with the index of the last one. -/
def lookup (words : List Word) (word : Word) : Option (Word × ℕ) :=
  let same := words.zipIdx.filter (fun e => rt.canonical e.1 = rt.canonical word)
  same.head?.bind (fun first => same.getLast?.map (fun last => (first.1, last.2)))

/-- Finds a word in the `trimmed_word_map`. -/
def lookupTrimmed (word : Word) : Option (Word × ℕ) :=
  lookup rt (language.wordList.map language.trim) <| utf8prefix language.uniquePrefixLength word

/-- `create_checksum_index`, which throws if a word is not in the list. -/
def createChecksumIndex (words : List Word) : Option ℕ := do
  let trimmed ← words.mapM (lookupTrimmed rt language)
  pure ((rt.crc32 (trimmed.flatMap Prod.fst)).toNat % words.length)

/-- `checksum_test`. -/
def checksumTest (seed : List Word) : Option Bool :=
  match seed.getLast? with
  | none => some false
  | some lastWord => do
    let index ← createChecksumIndex rt language seed.dropLast
    let checksum ← seed.dropLast[index]?
    pure (rt.canonical (language.trim checksum) = rt.canonical (language.trim lastWord))

/-- `find_seed_language`: a language with its indices of the words, or one of which only the
checksum did not fit. -/
def findSeedLanguage (seed : List Word) (hasChecksum : Bool) :
    List Language → Option Language → Option (Language × List ℕ)
  | [], fallback => fallback.map (fun language => (language, []))
  | language :: rest, fallback =>
    match seed.mapM (if hasChecksum then lookupTrimmed rt language
      else lookup rt language.wordList) with
    | none => findSeedLanguage seed hasChecksum rest fallback
    | some found =>
      if hasChecksum then
        match checksumTest rt language seed with
        | none => none
        | some true => some (language, found.map Prod.snd)
        | some false => findSeedLanguage seed hasChecksum rest (some language)
      else some (language, found.map Prod.snd)

/-- The loop that turns every three words into four bytes. -/
def decodeWords (length : UInt32) : List ℕ → Option (List UInt8)
  | w₁ :: w₂ :: w₃ :: rest =>
    let w₁ := UInt32.ofNat w₁
    let w₂ := UInt32.ofNat w₂
    let w₃ := UInt32.ofNat w₃
    let w₀ := w₁ + length * ((length - w₁ + w₂) % length) +
      length * length * ((length - w₂ + w₃) % length)
    if w₀ % length = w₁ then (decodeWords length rest).map (littleEndian 4 w₀.toNat ++ ·) else none
  | _ => some []

/-- `words_to_bytes`. The words of a seed of half the length are counted twice, the second time by
the number of bytes in place of that of bits. -/
def wordsToBytes (languages : List Language) (seed : List Word) (len : ℕ) (duplicate : Bool) :
    Option (List UInt8) :=
  let expected := len * 8 * 3 / 32
  if len % 4 ≠ 0 then none
  else if len ≠ 0 ∧ seed.length ∉ [expected / 2, expected, expected + 1] then none
  else do
    let hasChecksum : Bool := len = 0 ∨ seed.length = expected + 1
    let (language, indices) ← findSeedLanguage rt seed hasChecksum languages none
    let valid ← if hasChecksum then checksumTest rt language seed else some true
    let seedLength := if hasChecksum then seed.length - 1 else seed.length
    if valid then
      let dst ← decodeWords (UInt32.ofNat language.wordList.length) (indices.take seedLength)
      some (if 0 < len ∧ duplicate ∧ seedLength = len * 3 / 32 / 2 then dst ++ dst else dst)
    else none

/-- `words_to_bytes` for a secret key. -/
def wordsToSecretKey (languages : List Language) (seed : List Word) : Option (List UInt8) :=
  (wordsToBytes rt languages seed 32 true).filter (fun dst => dst.length = 32)

variable {rt}

theorem length_decodeWords {length : UInt32} {indices : List ℕ} {bytes : List UInt8}
    (h : decodeWords length indices = some bytes) : 3 * bytes.length ≤ 4 * indices.length := by
  fun_induction decodeWords length indices generalizing bytes with
  | case1 =>
    rename_i ih
    obtain ⟨tail, htail, rfl⟩ := Option.map_eq_some_iff.mp h
    have hrest := ih htail
    simp only [length_append, littleEndian, length_map, length_range, length_cons]
    omega
  | case2 => cases h
  | case3 =>
    cases h
    exact Nat.zero_le _

/-- No seed of half the length is accepted for a secret key. -/
theorem half_length_seed_refused (rt : Runtime) (languages : List Language)
    (seed : Fin 12 → Word) : wordsToSecretKey rt languages (ofFn seed) = none := by
  refine Option.filter_eq_none_iff.mpr fun dst hdst => ?_
  have hfound : ((findSeedLanguage rt (ofFn seed) false languages none).bind fun found =>
      decodeWords (UInt32.ofNat found.1.wordList.length) (found.2.take 12)) = some dst := by
    simpa [wordsToBytes] using hdst
  obtain ⟨found, -, hdecode⟩ := Option.bind_eq_some_iff.mp hfound
  have hlength := length_decodeWords hdecode
  rw [length_take] at hlength
  rw [decide_eq_true_eq]
  omega

end

/-- A list of words of two bytes each. -/
def numberWords : Language where
  wordList := (range 1626).map (fun i => littleEndian 2 i)
  uniquePrefixLength := 2

/-- The twelve words of sixteen zeros are decoded, and then refused. -/
theorem zero_seed_refused :
    let rt : Runtime := ⟨id, fun _ => 0⟩
    let seed := replicate 12 [0, 0]
    wordsToBytes rt [numberWords] seed 32 true = some (replicate 16 0) ∧
      wordsToSecretKey rt [numberWords] seed = none := by
  decide +kernel

end Xeqm.ElectrumWords
