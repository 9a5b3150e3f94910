import TdsqlMerge.Basic

/-!
# Log markers

Embedding of `src/utils/logger.cpp`: a marker is an empty file whose name is the hash of its key. The log
directory is the list of its file names. `stdHash` is `std::hash<std::string>` as libstdc++ computes it on
64 bits; `fileName_injective` says that the markers of the fetcher have different names.
-/

namespace TdsqlMerge.Fetcher

/-- `shift_mix` of libstdc++. -/
def shiftMix (v : UInt64) : UInt64 := v ^^^ (v >>> 47)

/-- `load_bytes` of libstdc++: at most eight bytes, the first one lowest. -/
def loadBytes (bytes : List UInt8) : UInt64 :=
  bytes.foldr (fun b v => (v <<< 8) + b.toUInt64) 0

/-- The multiplier of `_Hash_bytes`. -/
def hashMul : UInt64 := 0xc6a4a7935bd1e995

/-- The loop of `_Hash_bytes` over words of eight bytes, and its last, shorter word. -/
def hashWords (hash : UInt64) : List UInt8 → UInt64
  | b0 :: b1 :: b2 :: b3 :: b4 :: b5 :: b6 :: b7 :: rest =>
    let data := shiftMix (loadBytes [b0, b1, b2, b3, b4, b5, b6, b7] * hashMul) * hashMul
    hashWords ((hash ^^^ data) * hashMul) rest
  | [] => hash
  | tail => (hash ^^^ loadBytes tail) * hashMul

/-- `std::hash<std::string>`. -/
def stdHash (s : Str) : UInt64 :=
  let buf := bytes s
  let hash := hashWords (0xc70f6907 ^^^ (buf.length.toUInt64 * hashMul)) buf
  shiftMix (shiftMix hash * hashMul)

/-- `log_type::FINISHED`. -/
def finished : Nat := 3

/-- The name of the file of a marker. -/
def fileName (type : Nat) (key : Str) : UInt64 :=
  stdHash (Nat.toDigits 10 type ++ "::".toList ++ key)

/-- `Logger::find_log`. -/
def findLog (log : List UInt64) (type : Nat) (key : Str) : Bool := decide (fileName type key ∈ log)

/-- `Logger::write_normal_log`. -/
def writeNormalLog (log : List UInt64) (type : Nat) (key : Str) : List UInt64 := fileName type key :: log

/-- The key of the marker of a source. -/
def sourceKey (index : Nat) : Str := "evokeFetch".toList ++ Nat.toDigits 10 index

/-- The key of the marker of all sources. -/
def allKey : Str := "evokeFetchAll".toList

/-- The three marker files have different names. -/
lemma fileName_injective : fileName finished (sourceKey 0) ≠ fileName finished (sourceKey 1) ∧
    fileName finished (sourceKey 0) ≠ fileName finished allKey ∧
    fileName finished (sourceKey 1) ≠ fileName finished allKey := by
  decide +kernel

end TdsqlMerge.Fetcher
