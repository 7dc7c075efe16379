import Chromatin.Cli.Envelope

/-!
# NAME, BOMB and signing input in the client (`cli/src/wire.h`, `cli/src/wire.cpp`)

The client is compiled without the library of the node and has functions of its own for the shapes
that both sides build and read. They are written with the client's helpers, which store and load the
bytes of an integer by shifts. `make_name_data` is `Cli.makeNameData`. -/

namespace Cli.Shapes

open Infra Util Wire

def storeU32Be (val : UInt32) : Bytes :=
  [(val >>> 24).toUInt8, (val >>> 16).toUInt8, (val >>> 8).toUInt8, val.toUInt8]

def storeU64Be (val : UInt64) : Bytes :=
  [(val >>> 56).toUInt8, (val >>> 48).toUInt8, (val >>> 40).toUInt8, (val >>> 32).toUInt8,
    (val >>> 24).toUInt8, (val >>> 16).toUInt8, (val >>> 8).toUInt8, val.toUInt8]

/-- The two bytes at the offset; the caller has checked the size. -/
def loadU16Be (data : Bytes) (offset : Nat) : UInt16 :=
  (data.getD offset 0).toUInt16 <<< 8 ||| (data.getD (offset + 1) 0).toUInt16

def BOMB_MAGIC_CLI : Bytes := [0x42, 0x4F, 0x4D, 0x42]

/-- The sponge absorbs the parts one after the other. -/
def buildSigningInput
    (sha3_256 : Bytes → Hash32) (targetNamespace : Hash32) (data : Bytes) (ttl : UInt32)
    (timestamp : UInt64) : Hash32 :=
  sha3_256 ([targetNamespace.toList, data, storeU32Be ttl, storeU64Be timestamp].foldl (· ++ ·) [])

/-- `none` is the exception for more than `UINT32_MAX` targets. -/
def makeBombData (targets : List Hash32) : Option Bytes :=
  if targets.length > 0xFFFFFFFF then none
  else
    some (targets.foldl (fun result t => result ++ t.toList)
      (BOMB_MAGIC_CLI ++ storeU32Be (UInt32.ofNat targets.length)))

def kMin : Nat := 4 + 2 + 1 + 32

/-- Names are 1 to 65535 bytes long here. -/
def parseNamePayload (data : Bytes) : Option NamePayload :=
  if data.length < kMin then none
  else if data.take 4 ≠ Cli.NAME_MAGIC.toList then none
  else
    let nameLen := (loadU16Be data 4).toNat
    if nameLen = 0 then none
    else if data.length ≠ 4 + 2 + nameLen + 32 then none
    else
      some
        { name := (data.drop 6).take nameLen
          targetHash := (readFixed 32 data (6 + nameLen)).getD (FixedBytes.fill 32 0) }

end Cli.Shapes
