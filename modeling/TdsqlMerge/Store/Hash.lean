import TdsqlMerge.Basic

/-!
# The key hash

`boost::hash_combine` on strings as `UniqueIndex::getHashOfRow` calls it, from
`thirdparty/boost/include/boost/container_hash/hash.hpp` for a 64-bit `size_t`. The theorems about the
store hold for every combining function and take it as a parameter; this is the one the program uses.
-/

namespace TdsqlMerge.Store

/-- `hash_combine_impl<64>::fn`. -/
def hashCombineImpl (h k : UInt64) : UInt64 :=
  let m := ((0xc6a4a793 : UInt64) <<< 32) + 0x5bd1e995
  let k := k * m
  let k := k ^^^ (k >>> 47)
  let k := k * m
  (h ^^^ k) * m + 0xe6546b64

/-- `hash_value` of a `char`, which is signed: the conversion to `size_t` extends the sign. -/
def hashChar (b : UInt8) : UInt64 :=
  if b < 128 then b.toUInt64 else b.toUInt64 + (0 - 256)

/-- `hash_value` of a string: `hash_range` over its bytes. -/
def hashString (v : Str) : UInt64 :=
  (bytes v).foldl (fun seed b => hashCombineImpl seed (hashChar b)) 0

/-- `boost::hash_combine` on strings. -/
def hashCombine (seed : UInt64) (v : Str) : UInt64 := hashCombineImpl seed (hashString v)

end TdsqlMerge.Store
