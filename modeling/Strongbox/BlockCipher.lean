import Strongbox.Block

/-!
# Block ciphers

A mode of operation turns a block cipher into something that can encrypt
or authenticate messages, and asks nothing of the cipher but its
function on blocks. So what this library says about its modes, it says
of every `BlockCipher`; that the cipher is AES under a key is a matter
of how a stream or a session is made.

## A function, and no more

Nothing is asked of `encrypt`: not that it is one to one, and not that
it is hard to tell from chance. The theorems about streams and sessions
say which blocks are encrypted, in which order, and what is done with
the results, and they hold for any function. Where more is needed – that
an altered byte cannot leave a tag as it is, for one – it is a
hypothesis of the theorem, and it is proved of AES where AES comes in.

The decrypting direction does not appear. Both modes encrypt counter
blocks, in either direction of a message, and one of them chains
encryptions for its tag.
-/

namespace Strongbox

/-- **A block cipher under a key**, in the encrypting direction. The key
is inside the function: a stream holds one of these and has no other use
for its key. The name is kept because sessions and streams show it. -/
structure BlockCipher where
  /-- The name of the cipher, with its key size. -/
  name : String
  /-- The function on blocks. -/
  encrypt : Block → Block

end Strongbox
