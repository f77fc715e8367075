import AliceNet.BadgerTrie.Correctness
import AliceNet.Application.Transactions

/-! Proposals and block headers as bytes. A null field reads as the single byte zero. -/

namespace AliceNet.Consensus.Encoding

open Outcome List

/-- What the code uses of the library for one kind of message. -/
structure Codec (μ : Type) where
  marshal : μ → Bytes
  unmarshal : Bytes → Except Fault μ
  unmarshal_marshal : ∀ message, unmarshal (marshal message) = .ok message

instance countableUInt8 : Countable UInt8 :=
  Function.Injective.countable fun _ _ => UInt8.toNat_inj.mp

instance countableUInt32 : Countable UInt32 :=
  Function.Injective.countable fun _ _ => UInt32.toNat_inj.mp

namespace Capn

structure RClaims where
  chainID : UInt32
  height : UInt32
  round : UInt32
  prevBlock : Option Bytes
  deriving Countable

structure RCert where
  rClaims : Option RClaims
  sigGroup : Option Bytes
  deriving Countable

structure BClaims where
  chainID : UInt32
  height : UInt32
  txCount : UInt32
  prevBlock : Option Bytes
  txRoot : Option Bytes
  stateRoot : Option Bytes
  headerRoot : Option Bytes
  deriving Countable

structure PClaims where
  bClaims : Option BClaims
  rCert : Option RCert
  deriving Countable

structure Proposal where
  pClaims : Option PClaims
  signature : Option Bytes
  txHshLst : Option Bytes
  deriving Countable

structure BlockHeader where
  bClaims : Option BClaims
  sigGroup : Option Bytes
  txHshLst : Option Bytes
  deriving Countable

end Capn

/-- Encodings, the hash function, and signature schemes that return the key of the signer. -/
structure Libraries where
  rClaims : Codec Capn.RClaims
  bClaims : Codec Capn.BClaims
  pClaims : Codec Capn.PClaims
  proposal : Codec Capn.Proposal
  blockHeader : Codec Capn.BlockHeader
  hasher : Bytes → Bytes32
  secpValidate : (msg sig : Bytes) → Except Fault Bytes
  bnValidate : (msg sig : Bytes) → Except Fault Bytes
  bnAggregate : (sigs groupShares : List Bytes) → Except Fault Bytes

structure RClaims where
  chainID : UInt32
  height : UInt32
  round : UInt32
  prevBlock : Bytes
  deriving DecidableEq

structure RCert where
  rClaims : RClaims
  sigGroup : Bytes
  deriving DecidableEq

structure BClaims where
  chainID : UInt32
  height : UInt32
  txCount : UInt32
  prevBlock : Bytes
  txRoot : Bytes
  stateRoot : Bytes
  headerRoot : Bytes
  deriving DecidableEq

structure PClaims where
  bClaims : BClaims
  rCert : RCert
  deriving DecidableEq

structure Proposal where
  pClaims : PClaims
  signature : Bytes
  txHshLst : List Bytes
  deriving DecidableEq

structure BlockHeader where
  bClaims : BClaims
  sigGroup : Bytes
  txHshLst : List Bytes
  deriving DecidableEq

structure NHClaims where
  proposal : Proposal
  sigShare : Bytes
  deriving DecidableEq

structure NextHeight where
  nhClaims : NHClaims
  signature : Bytes
  preCommits : List Bytes
  deriving DecidableEq

def HashLen : ℕ := 32
def CurveBN256EthSigLen : ℕ := 192

def splitBlob (s : Bytes) (blen : ℕ) : Except Fault (List Bytes) := do
  require (0 < blen) (.invalid "SplitBlob; blen <= 0")
  require (s.length % blen = 0) (.invalid "SplitBlob; invalid length")
  pure ((List.range (s.length / blen)).map fun i => (s.drop (i * blen)).take blen)

def splitHashes (s : Bytes) : Except Fault (List Bytes) :=
  splitBlob s HashLen

def present {α : Type} (field : Option α) (text : String) : Except Fault α :=
  match field with
  | some value => pure value
  | none => .error (.invalid text)

def validateHash (hsh : Bytes) : Except Fault Unit :=
  require (hsh.length = HashLen) (.invalid "the length of the hash is incorrect")

def presentHash (field : Option Bytes) (text : String) : Except Fault Bytes := do
  let hsh ← present field text
  validateHash hsh
  pure hsh

def RClaims.unmarshalCapn (bh : Capn.RClaims) : Except Fault RClaims := do
  let prevBlock ← presentHash bh.prevBlock "rclaims capn obj does not have PrevBlock"
  require (1 ≤ bh.height) (.invalid "RClaims.UnmarshalCapn; height is zero")
  require (1 ≤ bh.round) (.invalid "RClaims.UnmarshalCapn; round is zero")
  require (1 ≤ bh.chainID) (.invalid "RClaims.UnmarshalCapn; chainID is zero")
  require (bh.round.toNat ≤ DEADBLOCKROUND) (.invalid "RClaims.UnmarshalCapn; round > DBR")
  pure ⟨bh.chainID, bh.height, bh.round, prevBlock⟩

def RCert.unmarshalCapn (bh : Capn.RCert) : Except Fault RCert := do
  let rClaims ← present bh.rClaims "rcert capn obj does not have RClaims"
  let sigGroup ← present bh.sigGroup "rcert capn obj does not have SigGroup"
  let rClaims ← RClaims.unmarshalCapn rClaims
  pure ⟨rClaims, sigGroup⟩

def BClaims.unmarshalCapn (bc : Capn.BClaims) : Except Fault BClaims := do
  let stateRoot ← presentHash bc.stateRoot "bclaims capn obj does not have StateRoot"
  let prevBlock ← presentHash bc.prevBlock "bclaims capn obj does not have PrevBlock"
  let txRoot ← presentHash bc.txRoot "bclaims capn obj does not have TxRoot"
  let headerRoot ← presentHash bc.headerRoot "bclaims capn obj does not have HeaderRoot"
  require (1 ≤ bc.height) (.invalid "BClaims.UnmarshalCapn; height is zero")
  require (1 ≤ bc.chainID) (.invalid "BClaims.UnmarshalCapn; chainID is zero")
  pure ⟨bc.chainID, bc.height, bc.txCount, prevBlock, txRoot, stateRoot, headerRoot⟩

def PClaims.unmarshalCapn (bh : Capn.PClaims) : Except Fault PClaims := do
  let bClaims ← present bh.bClaims "pclaims capn obj does not have BClaims"
  let rCert ← present bh.rCert "pclaims capn obj does not have RCert"
  let rCert ← RCert.unmarshalCapn rCert
  let bClaims ← BClaims.unmarshalCapn bClaims
  require (rCert.rClaims.chainID = bClaims.chainID)
    (.invalid "PClaims.UnmarshalCapn; pclaims chainID != chainID")
  require (rCert.rClaims.height = bClaims.height)
    (.invalid "PClaims.UnmarshalCapn; pclaims height != height")
  require (rCert.rClaims.prevBlock = bClaims.prevBlock)
    (.invalid "PClaims.UnmarshalCapn; pclaims prevBlock != prevBlock")
  pure ⟨bClaims, rCert⟩

def Proposal.unmarshalCapn (bh : Capn.Proposal) : Except Fault Proposal := do
  let pClaims ← present bh.pClaims "proposal capn obj does not have PClaims"
  let signature ← present bh.signature "proposal capn obj does not have Signature"
  let txHshLst ← splitHashes (bh.txHshLst.getD [0])
  let pClaims ← PClaims.unmarshalCapn pClaims
  require (pClaims.rCert.rClaims.round.toNat = DEADBLOCKROUND → txHshLst = [])
    (.invalid "Proposal.UnmarshalCapn; nonempty TxHshLst in DeadBlockRound")
  pure ⟨pClaims, signature, txHshLst⟩

def BlockHeader.unmarshalCapn (bh : Capn.BlockHeader) : Except Fault BlockHeader := do
  let sigGroup ← present bh.sigGroup "blockheader capn obj does not have SigGroup"
  let txHshLst ← present bh.txHshLst "blockheader capn obj does not have TxHshLst"
  let bClaims ← present bh.bClaims "blockheader capn obj does not have BClaims"
  let txHshLst ← splitHashes txHshLst
  let bClaims ← BClaims.unmarshalCapn bClaims
  require (sigGroup.length = CurveBN256EthSigLen)
    (.invalid "BlockHeader.UnmarshalCapn; incorrect SigGroup length")
  require (txHshLst.length = bClaims.txCount.toNat)
    (.invalid "BlockHeader.UnmarshalCapn; incorrect txHshLst length")
  pure ⟨bClaims, sigGroup, txHshLst⟩

def RClaims.marshalCapn (b : RClaims) : Capn.RClaims :=
  ⟨b.chainID, b.height, b.round, some b.prevBlock⟩

def RCert.marshalCapn (b : RCert) : Capn.RCert :=
  ⟨some b.rClaims.marshalCapn, some b.sigGroup⟩

def BClaims.marshalCapn (b : BClaims) : Capn.BClaims :=
  ⟨b.chainID, b.height, b.txCount, some b.prevBlock, some b.txRoot, some b.stateRoot,
    some b.headerRoot⟩

def PClaims.marshalCapn (b : PClaims) : Capn.PClaims :=
  ⟨some b.bClaims.marshalCapn, some b.rCert.marshalCapn⟩

def BlockHeader.marshalCapn (b : BlockHeader) : Capn.BlockHeader :=
  ⟨some b.bClaims.marshalCapn, some b.sigGroup, some b.txHshLst.flatten⟩

variable (lib : Libraries)

def RClaims.marshalBinary (b : RClaims) : Except Fault Bytes := do
  require (b.chainID ≠ 0) (.invalid "RClaims.MarshalBinary; chainID is zero")
  require (b.round ≠ 0) (.invalid "RClaims.MarshalBinary; round is zero")
  require (b.round.toNat ≤ DEADBLOCKROUND) (.invalid "RClaims.MarshalBinary; round > DBR")
  require (b.height ≠ 0) (.invalid "RClaims.MarshalBinary; height is zero")
  pure (lib.rClaims.marshal b.marshalCapn)

def BClaims.marshalBinary (b : BClaims) : Except Fault Bytes := do
  require (b.chainID ≠ 0) (.invalid "BClaims.MarshalBinary; chainID is zero")
  require (b.height ≠ 0) (.invalid "BClaims.MarshalBinary; height is zero")
  pure (lib.bClaims.marshal b.marshalCapn)

def BClaims.unmarshalBinary (data : Bytes) : Except Fault BClaims := do
  let bc ← lib.bClaims.unmarshal data
  BClaims.unmarshalCapn bc

def BClaims.blockHash (b : BClaims) : Except Fault Bytes := do
  let can ← b.marshalBinary lib
  pure (lib.hasher can).toBytes

def PClaims.marshalBinary (b : PClaims) : Except Fault Bytes :=
  pure (lib.pClaims.marshal b.marshalCapn)

def Proposal.unmarshalBinary (data : Bytes) : Except Fault Proposal := do
  let bh ← lib.proposal.unmarshal data
  Proposal.unmarshalCapn bh

def BlockHeader.marshalBinary (b : BlockHeader) : Except Fault Bytes :=
  pure (lib.blockHeader.marshal b.marshalCapn)

def BlockHeader.unmarshalBinary (data : Bytes) : Except Fault BlockHeader := do
  let bh ← lib.blockHeader.unmarshal data
  BlockHeader.unmarshalCapn bh

/-- What is loaded after the header has been stored. -/
def BlockHeader.reload (b : BlockHeader) : Except Fault BlockHeader := do
  let data ← b.marshalBinary lib
  BlockHeader.unmarshalBinary lib data

def makeTxRoot (txHashes : List Bytes) : Except Fault Bytes :=
  if txHashes = [] then pure (lib.hasher []).toBytes
  else do
    let kvs ← txHashes.mapM fun txHash => do
      require (txHash.length = HashLen) (.invalid "MakeTxRoot; incorrect txHash length")
      pure (⟨Bytes32.ofBytes txHash, lib.hasher txHash⟩ : BadgerTrie.KV)
    let smt ← (BadgerTrie.SMT.Update lib.hasher .new (Application.sortKVs kvs)).mapError
      Application.ofTrie
    pure ((smt.root.map Bytes32.toBytes).getD [])

/-- The group key; the empty one stands for no key. -/
def RCert.validateSignature (b : RCert) : Except Fault Bytes := do
  require (b.rClaims.height ≠ 0) (.invalid "RCert.ValidateSignatures; height is zero")
  require (b.rClaims.chainID ≠ 0) (.invalid "RCert.ValidateSignatures; chainID is zero")
  require (b.rClaims.round ≠ 0) (.invalid "RCert.ValidateSignatures; round is zero")
  require (b.rClaims.round.toNat ≤ DEADBLOCKROUND)
    (.invalid "RCert.ValidateSignatures; round > DeadBlockRound")
  if b.rClaims.height = 1 ∧ b.rClaims.round = 1 then pure (List.replicate 128 0)
  else if b.rClaims.height = 1 then
    .error (.invalid "RCert.ValidateSignatures; RCert should not exist!")
  else if b.rClaims.height = 2 ∧ b.rClaims.round = 1 then pure []
  else do
    require (b.rClaims.prevBlock.length = HashLen)
      (.invalid "RCert.ValidateSignatures; invalid PrevBlock")
    if 1 < b.rClaims.round then
      let canonicalEncoding ← b.rClaims.marshalBinary lib
      lib.bnValidate canonicalEncoding b.sigGroup
    else lib.bnValidate b.rClaims.prevBlock b.sigGroup

def ProposalSigDesignator : Bytes := "Proposal".toUTF8.toList

/-- The key of the proposer and the group key. -/
def Proposal.validateSignatures (b : Proposal) : Except Fault (Bytes × Bytes) := do
  let txRoot ← makeTxRoot lib b.txHshLst
  require (txRoot = b.pClaims.bClaims.txRoot)
    (.invalid "Proposal.ValidateSignatures; Proposal TxRoot mismatch")
  let groupKey ← b.pClaims.rCert.validateSignature lib
  require (b.pClaims.rCert.rClaims.round.toNat ≤ DEADBLOCKROUND)
    (.invalid "Proposal.ValidateSignatures; Proposal.RCert.Round > DBR")
  let canonicalEncoding ← b.pClaims.marshalBinary lib
  let proposer ← lib.secpValidate (ProposalSigDesignator ++ canonicalEncoding) b.signature
  pure (proposer, groupKey)

def BlockHeader.ofProposal (p : Proposal) (sigGroup : Bytes) : BlockHeader :=
  ⟨p.pClaims.bClaims, sigGroup, p.txHshLst⟩

/-- `MakeBlockHeader` on a list with at least one element. -/
def makeBlockHeader (first : NextHeight) (rest : List NextHeight) (groupShares : List Bytes) :
    Except Fault (BlockHeader × RCert) := do
  let sigGroup ← lib.bnAggregate ((first :: rest).map fun nh => nh.nhClaims.sigShare) groupShares
  let bcBytes ← first.nhClaims.proposal.pClaims.bClaims.marshalBinary lib
  let bclaims ← BClaims.unmarshalBinary lib bcBytes
  let prevBlock ← bclaims.blockHash lib
  pure (⟨bclaims, sigGroup, first.nhClaims.proposal.txHshLst⟩,
    ⟨⟨bclaims.chainID, bclaims.height + 1, 1, prevBlock⟩, sigGroup⟩)

section

variable {lib}

private theorem flatten_length {pieces : List Bytes}
    (sizes : ∀ piece ∈ pieces, piece.length = blen) :
    pieces.flatten.length = pieces.length * blen := by
  rw [length_flatten, map_congr_left sizes, map_const', sum_replicate, smul_eq_mul]

private theorem piece_flatten {pieces : List Bytes} (sizes : ∀ piece ∈ pieces, piece.length = blen)
    (i : ℕ) (bound : i < pieces.length) :
    (pieces.flatten.drop (i * blen)).take blen = pieces[i] := by
  induction pieces generalizing i with
  | nil => cases bound
  | cons piece rest ih =>
    obtain ⟨first, others⟩ := forall_mem_cons.mp sizes
    cases i with
    | zero => simp [← first]
    | succ i =>
      rw [flatten_cons, show (i + 1) * blen = piece.length + i * blen by rw [first]; ring,
        drop_length_add_append]
      exact ih others i (Nat.lt_of_succ_lt_succ bound)

private theorem splitBlob_flatten {pieces : List Bytes} (pos : 0 < blen)
    (sizes : ∀ piece ∈ pieces, piece.length = blen) :
    splitBlob pieces.flatten blen = .ok pieces := by
  simp only [splitBlob, flatten_length sizes, ok_iff', Nat.mul_mod_left, pos, true_and,
    Nat.mul_div_cancel _ pos]
  refine ext_getElem (by simp) fun i first second => ?_
  rw [getElem_map, getElem_range]
  exact piece_flatten sizes i second

private theorem splitBlob_sizes (ran : splitBlob s blen = .ok pieces) :
    ∀ piece ∈ pieces, piece.length = blen := by
  simp only [splitBlob, ok_iff'] at ran
  obtain ⟨pos, whole, rfl⟩ := ran
  intro piece mem
  obtain ⟨i, listed, rfl⟩ := mem_map.mp mem
  have inside : (i + 1) * blen ≤ s.length :=
    (Nat.mul_le_mul_right blen (mem_range.mp listed)).trans (Nat.div_mul_le_self s.length blen)
  rw [length_take, length_drop]
  rw [Nat.add_mul, Nat.one_mul] at inside
  omega

/-- What decoding ensures of the claims about a block. -/
structure BClaims.Sound (b : BClaims) : Prop where
  prevBlock : b.prevBlock.length = HashLen
  txRoot : b.txRoot.length = HashLen
  stateRoot : b.stateRoot.length = HashLen
  headerRoot : b.headerRoot.length = HashLen
  height : 1 ≤ b.height
  chainID : 1 ≤ b.chainID

theorem presentHash_ok_iff :
    presentHash field text = .ok hsh ↔ field = some hsh ∧ hsh.length = HashLen := by
  cases field with
  | none => simp [presentHash, present, bind, Except.bind]
  | some value =>
    simp only [presentHash, present, validateHash, ok_iff, Option.some.injEq]
    constructor
    · rintro ⟨_, rfl, _, length, rfl⟩
      exact ⟨rfl, length⟩
    · rintro ⟨rfl, length⟩
      exact ⟨_, rfl, (), length, rfl⟩

theorem BClaims.sound_of_unmarshalCapn (ran : BClaims.unmarshalCapn bc = .ok b) : b.Sound := by
  simp only [BClaims.unmarshalCapn, ok_iff', presentHash_ok_iff] at ran
  obtain ⟨_, ⟨_, first⟩, _, ⟨_, second⟩, _, ⟨_, third⟩, _, ⟨_, fourth⟩, height, chainID, rfl⟩ := ran
  exact ⟨second, third, first, fourth, height, chainID⟩

theorem BClaims.Sound.unmarshalCapn {b : BClaims} (sound : b.Sound) :
    BClaims.unmarshalCapn b.marshalCapn = .ok b := by
  simp only [BClaims.unmarshalCapn, BClaims.marshalCapn, ok_iff, presentHash_ok_iff]
  exact ⟨_, ⟨rfl, sound.stateRoot⟩, _, ⟨rfl, sound.prevBlock⟩, _, ⟨rfl, sound.txRoot⟩, _,
    ⟨rfl, sound.headerRoot⟩, (), require_of sound.height _, (), require_of sound.chainID _, rfl⟩

theorem BClaims.Sound.marshalBinary {b : BClaims} (sound : b.Sound) :
    b.marshalBinary lib = .ok (lib.bClaims.marshal b.marshalCapn) := by
  have chainID : b.chainID ≠ 0 := fun zero => absurd sound.chainID (by rw [zero]; decide)
  have height : b.height ≠ 0 := fun zero => absurd sound.height (by rw [zero]; decide)
  simp only [BClaims.marshalBinary, ok_iff]
  exact ⟨(), chainID, (), height, trivial⟩

theorem Proposal.sound_of_unmarshalCapn {p : Proposal} (ran : Proposal.unmarshalCapn bh = .ok p) :
    p.pClaims.bClaims.Sound ∧ ∀ hsh ∈ p.txHshLst, hsh.length = HashLen := by
  simp only [Proposal.unmarshalCapn, PClaims.unmarshalCapn, ok_iff] at ran
  obtain ⟨_, _, _, _, hashes, split, _, ⟨_, _, _, _, _, _, bClaims, decoded, _, _, _, _, _, _, rfl⟩,
    _, _, rfl⟩ := ran
  exact ⟨BClaims.sound_of_unmarshalCapn decoded, splitBlob_sizes split⟩

theorem BlockHeader.reload_eq {b : BlockHeader} (sound : b.bClaims.Sound)
    (hashes : ∀ hsh ∈ b.txHshLst, hsh.length = HashLen)
    (length : b.sigGroup.length = CurveBN256EthSigLen) :
    b.reload lib = (do
      require (b.txHshLst.length = b.bClaims.txCount.toNat)
        (.invalid "BlockHeader.UnmarshalCapn; incorrect txHshLst length")
      pure b) := by
  have split : splitHashes b.txHshLst.flatten = .ok b.txHshLst :=
    splitBlob_flatten (by decide) hashes
  simp only [BlockHeader.reload, BlockHeader.marshalBinary, BlockHeader.unmarshalBinary,
    BlockHeader.unmarshalCapn, BlockHeader.marshalCapn, lib.blockHeader.unmarshal_marshal, present,
    split, sound.unmarshalCapn, require_of length, pure, Except.pure, bind, Except.bind]

/-- The header that is made from a decoded proposal, along either way, can be loaded again exactly
if the proposal counts its transactions right. -/
theorem committedHeader_reload_iff {data : Bytes} {p : Proposal} {origin : Bytes × Bytes}
    (decoded : Proposal.unmarshalBinary lib data = .ok p)
    (_valid : p.validateSignatures lib = .ok origin) {sigGroup : Bytes}
    (length : sigGroup.length = CurveBN256EthSigLen) :
    ((BlockHeader.ofProposal p sigGroup).reload lib = .ok (BlockHeader.ofProposal p sigGroup) ↔
        p.txHshLst.length = p.pClaims.bClaims.txCount.toNat) ∧
      ∀ first rest groupShares, first.nhClaims.proposal = p →
        lib.bnAggregate ((first :: rest).map fun nh => nh.nhClaims.sigShare) groupShares =
          .ok sigGroup →
        ∃ rc, makeBlockHeader lib first rest groupShares = .ok (BlockHeader.ofProposal p sigGroup,
          rc) := by
  obtain ⟨bh, _, fields⟩ := bind_ok_iff.mp decoded
  obtain ⟨sound, hashes⟩ := Proposal.sound_of_unmarshalCapn fields
  refine ⟨?_, ?_⟩
  · rw [BlockHeader.reload_eq (b := .ofProposal p sigGroup) sound hashes length, bind_ok_iff]
    constructor
    · rintro ⟨_, counted, _⟩
      exact require_ok_iff.mp counted
    · intro counted
      exact ⟨(), require_of counted _, rfl⟩
  rintro first rest groupShares rfl aggregated
  have claims :
      BClaims.unmarshalBinary lib
      (lib.bClaims.marshal first.nhClaims.proposal.pClaims.bClaims.marshalCapn) =
      .ok first.nhClaims.proposal.pClaims.bClaims := by
    rw [BClaims.unmarshalBinary, lib.bClaims.unmarshal_marshal]
    exact sound.unmarshalCapn
  simp only [makeBlockHeader, aggregated, sound.marshalBinary, claims, BClaims.blockHash, bind,
    Except.bind, pure, Except.pure]
  exact ⟨_, rfl⟩

end

/-! ### A proposal with two transactions, and one that miscounts them -/

/-- Messages can be numbered, so they can be written as bytes. -/
noncomputable def Codec.ofCountable (μ : Type) [Countable μ] : Codec μ :=
  let number : μ → ℕ := (exists_injective_nat μ).choose
  let inj := (exists_injective_nat μ).choose_spec
  { marshal := fun message => List.replicate (number message) 0
    unmarshal := fun data => match Function.partialInv number data.length with
      | some message => .ok message
      | none => .error .corrupt
    unmarshal_marshal := fun message => by
      rw [List.length_replicate, Function.partialInv_left (f := number) inj] }

noncomputable def sampleLibraries : Libraries where
  rClaims := .ofCountable _
  bClaims := .ofCountable _
  pClaims := .ofCountable _
  proposal := .ofCountable _
  blockHeader := .ofCountable _
  hasher := BadgerTrie.sampleHash
  secpValidate _ _ := .ok []
  bnValidate _ _ := .ok []
  bnAggregate _ _ := .ok (List.replicate CurveBN256EthSigLen 0)

def zeros : Bytes := List.replicate HashLen 0

def sampleProposal (txCount : UInt32) (txRoot : Bytes32) (txHshLst : List Bytes) : Proposal :=
  ⟨⟨⟨1, 2, txCount, zeros, txRoot.toBytes, zeros, zeros⟩, ⟨⟨1, 2, 1, zeros⟩, []⟩⟩, [], txHshLst⟩

def Proposal.marshalCapn (b : Proposal) : Capn.Proposal :=
  ⟨some b.pClaims.marshalCapn, some b.signature, some b.txHshLst.flatten⟩

theorem sampleProposal_decoded (txCount : UInt32) (txRoot : Bytes32)
    (split : splitHashes txHshLst.flatten = .ok txHshLst) : Proposal.unmarshalBinary sampleLibraries
      (sampleLibraries.proposal.marshal (sampleProposal txCount txRoot txHshLst).marshalCapn) =
        .ok (sampleProposal txCount txRoot txHshLst) := by
  rw [Proposal.unmarshalBinary, sampleLibraries.proposal.unmarshal_marshal]
  have length : zeros.length = HashLen := length_replicate
  have rooted : txRoot.toBytes.length = HashLen := Bytes32.length_toBytes txRoot
  simp [Proposal.unmarshalCapn, Proposal.marshalCapn, PClaims.unmarshalCapn, PClaims.marshalCapn,
    RCert.unmarshalCapn, RCert.marshalCapn, RClaims.unmarshalCapn, RClaims.marshalCapn,
    BClaims.unmarshalCapn, BClaims.marshalCapn, sampleProposal, present, presentHash, validateHash,
    split, length, rooted, require, DEADBLOCKROUND, bind, Except.bind, pure, Except.pure]

theorem sampleProposal_valid (txCount : UInt32)
    (rooted : makeTxRoot sampleLibraries txHshLst = .ok (Bytes32.toBytes txRoot)) :
    (sampleProposal txCount txRoot txHshLst).validateSignatures sampleLibraries = .ok ([], []) := by
  simp only [Proposal.validateSignatures, sampleProposal, rooted]
  simp [sampleLibraries, RCert.validateSignature, PClaims.marshalBinary, require, DEADBLOCKROUND,
    bind, Except.bind, pure, Except.pure]

def sampleHashes : List Bytes :=
    [BadgerTrie.sampleKey 10, BadgerTrie.sampleKey 16].map Bytes32.toBytes

def sampleTxRoot : Bytes32 :=
  let leaf := fun n => BadgerTrie.sampleHash (BadgerTrie.leafInput (BadgerTrie.sampleKey n)
    (BadgerTrie.sampleHash (BadgerTrie.sampleKey n).toBytes) 255)
  BadgerTrie.sampleHash (BadgerTrie.nodeInput (leaf 10) (leaf 16))

theorem committedHeader_reload_sample :
    (BlockHeader.ofProposal (sampleProposal 2 sampleTxRoot sampleHashes)
      (List.replicate 192 0)).reload
        sampleLibraries =
      .ok (BlockHeader.ofProposal (sampleProposal 2 sampleTxRoot sampleHashes)
        (List.replicate 192 0)) := by
  have split : splitHashes sampleHashes.flatten = .ok sampleHashes := by decide +kernel
  have rooted : makeTxRoot sampleLibraries sampleHashes =
    .ok sampleTxRoot.toBytes := by decide +kernel
  exact (committedHeader_reload_iff (sampleProposal_decoded 2 sampleTxRoot split)
    (sampleProposal_valid 2 rooted) length_replicate).1.mpr rfl

def sampleMiscounted : Proposal := sampleProposal 1 (BadgerTrie.sampleHash []) []

theorem committedHeader_lost : ∃ data origin,
    Proposal.unmarshalBinary sampleLibraries data = .ok sampleMiscounted ∧
    sampleMiscounted.validateSignatures sampleLibraries = .ok origin ∧
    (BlockHeader.ofProposal sampleMiscounted (List.replicate 192 0)).reload sampleLibraries =
      .error (.invalid "BlockHeader.UnmarshalCapn; incorrect txHshLst length") := by
  have decoded := sampleProposal_decoded 1 (BadgerTrie.sampleHash []) (show splitHashes [].flatten =
    .ok [] from rfl)
  refine ⟨_, _, decoded, sampleProposal_valid 1 rfl, ?_⟩
  obtain ⟨bh, _, fields⟩ := bind_ok_iff.mp decoded
  obtain ⟨sound, hashes⟩ := Proposal.sound_of_unmarshalCapn fields
  have length : (replicate 192 (0 : UInt8)).length = CurveBN256EthSigLen := length_replicate
  rw [BlockHeader.reload_eq (b := .ofProposal sampleMiscounted (replicate 192 0)) sound hashes
    length]
  rfl

end AliceNet.Consensus.Encoding
