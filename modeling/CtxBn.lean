import CtxBn.Basic
import CtxBn.Bignum
import CtxBn.Magnitude
import CtxBn.Bits
import CtxBn.Reduction
import CtxBn.BignumCorrect
import CtxBn.BitsCorrect
import CtxBn.Ctx
import CtxBn.Pool
import CtxBn.Client
import CtxBn.Routine
import CtxBn.Ext
import CtxBn.Values
